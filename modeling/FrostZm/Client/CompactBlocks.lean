import FrostZm.Ffi.Errors
import FrostZm.Lib.WireFormat

/-!
# Compact blocks in TypeScript

The decoder of `lightwalletd.ts` and the messages of `compact_formats.proto`. The decoders of
transactions, spends and outputs use the field numbers of the schema; the decoder of blocks takes
`protoVersion` for the height and `prevHash` for the transactions.
-/

open WireFormat

namespace Lightwalletd

/-! ## Reading -/

/-- `data[i]`, where `undefined` has no bits. -/
def byteAt (data : Bytes) (i : Int) : UInt8 := if i < 0 then 0 else data.getD i.toNat 0

/-- `data.slice(first, last)`: what is negative counts from the end. -/
def sliceOf (data : Bytes) (first last : Int) : Bytes :=
  let resolve (i : Int) : Nat :=
    if i < 0 then (data.length + i).toNat else min i.toNat data.length
  (data.take (resolve last)).drop (resolve first)

/-- The loop of `readVarint` over the rest of the data, with the number of bytes that it takes. -/
def varintLoop : Bytes → BitVec 32 → Nat → BitVec 32 × Nat
  | [], value, _ => (value, 0)
  | byte :: rest, value, shift =>
    -- a shift by 32 or more starts again at the low bits
    let value := value ||| (BitVec.ofNat 32 (byte.toNat % 128) <<< (shift % 32))
    if byte.toNat < 128 then (value, 1)
    else
      let (value, n) := varintLoop rest value (shift + 7)
      (value, n + 1)

/-- The value, and the offset behind it. -/
def readVarint (data : Bytes) (offset : Int) : Int × Int :=
  if offset < 0 then (0, offset + 1)
  else
    let (value, n) := varintLoop (data.drop offset.toNat) 0 0
    (value.toInt, offset + n)

/-- The loop of the decoders. Each says what it does with a number and with a string of bytes.
A negative length leads backwards, so the loop has fuel. -/
def fieldLoop {σ : Type} (onVarint : σ → Nat → Int → σ) (onBytes : σ → Nat → Bytes → Option σ)
    (data : Bytes) : Nat → Int → σ → Option σ
  | 0, _, _ => none
  | fuel + 1, offset, st =>
    if offset < data.length then
      let tag := (byteAt data offset).toNat
      let fieldNumber := tag / 8
      let wireType := tag % 8
      if wireType = 0 then
        let v := readVarint data (offset + 1)
        fieldLoop onVarint onBytes data fuel v.2 (onVarint st fieldNumber v.1)
      else if wireType = 2 then
        let len := readVarint data (offset + 1)
        let fieldData := sliceOf data len.2 (len.2 + len.1)
        (onBytes st fieldNumber fieldData).bind
          (fieldLoop onVarint onBytes data fuel (len.2 + len.1))
      else some st
    else some st

structure CompactSpend where
  nf : Bytes
deriving DecidableEq

structure CompactOutput where
  cmu : Bytes
  ephemeralKey : Bytes
  ciphertext : Bytes
deriving DecidableEq

structure CompactTx where
  hash : Bytes
  spends : List CompactSpend
  outputs : List CompactOutput
deriving DecidableEq

structure CompactBlock where
  height : Int
  transactions : List CompactTx
deriving DecidableEq

def spendField (st : CompactSpend) (fieldNumber : Nat) (fieldData : Bytes) : CompactSpend :=
  if fieldNumber = 1 then { nf := fieldData } else st

def parseCompactSpend (fuel : Nat) (data : Bytes) : Option CompactSpend :=
  fieldLoop (fun st _ _ => st) (fun st f b => some (spendField st f b)) data fuel 0 ⟨[]⟩

def outputField (st : CompactOutput) (fieldNumber : Nat) (fieldData : Bytes) : CompactOutput :=
  if fieldNumber = 1 then { st with cmu := fieldData }
  else if fieldNumber = 2 then { st with ephemeralKey := fieldData }
  else if fieldNumber = 3 then { st with ciphertext := fieldData }
  else st

def parseCompactOutput (fuel : Nat) (data : Bytes) : Option CompactOutput :=
  fieldLoop (fun st _ _ => st) (fun st f b => some (outputField st f b)) data fuel 0 ⟨[], [], []⟩

def txField (fuel : Nat) (st : CompactTx) (fieldNumber : Nat) (fieldData : Bytes) :
    Option CompactTx :=
  if fieldNumber = 2 then some { st with hash := fieldData }
  else if fieldNumber = 4 then
    (parseCompactSpend fuel fieldData).map fun s => { st with spends := st.spends ++ [s] }
  else if fieldNumber = 5 then
    (parseCompactOutput fuel fieldData).map fun o => { st with outputs := st.outputs ++ [o] }
  else some st

def parseCompactTx (fuel : Nat) (data : Bytes) : Option CompactTx :=
  fieldLoop (fun st _ _ => st) (txField fuel) data fuel 0 ⟨[], [], []⟩

def blockNumber (st : CompactBlock) (fieldNumber : Nat) (v : Int) : CompactBlock :=
  if fieldNumber = 1 then { st with height := v } else st

def blockField (fuel : Nat) (st : CompactBlock) (fieldNumber : Nat) (fieldData : Bytes) :
    Option CompactBlock :=
  if fieldNumber = 4 then
    (parseCompactTx fuel fieldData).map fun tx =>
      { st with transactions := st.transactions ++ [tx] }
  else some st

def parseCompactBlock (fuel : Nat) (data : Bytes) : Option CompactBlock :=
  fieldLoop blockNumber (blockField fuel) data fuel 0 ⟨0, []⟩

/-! ## The messages of the schema -/

namespace Proto

structure ChainMetadata where
  saplingCommitmentTreeSize : UInt32
  orchardCommitmentTreeSize : UInt32

structure CompactSaplingSpend where
  nf : Bytes

structure CompactSaplingOutput where
  cmu : Bytes
  ephemeralKey : Bytes
  ciphertext : Bytes

structure CompactOrchardAction where
  nullifier : Bytes
  cmx : Bytes
  ephemeralKey : Bytes
  ciphertext : Bytes

structure CompactTx where
  index : UInt64
  hash : Bytes
  fee : UInt32
  spends : List CompactSaplingSpend
  outputs : List CompactSaplingOutput
  actions : List CompactOrchardAction

structure CompactBlock where
  protoVersion : UInt32
  height : UInt64
  hash : Bytes
  prevHash : Bytes
  time : UInt32
  header : Bytes
  vtx : List CompactTx
  chainMetadata : Option ChainMetadata

def ChainMetadata.fields (m : ChainMetadata) : Fields
  | 1, rs => rs = scalar 1 m.saplingCommitmentTreeSize.toNat
  | 2, rs => rs = scalar 2 m.orchardCommitmentTreeSize.toNat
  | _, rs => rs = []

def CompactSaplingSpend.fields (spend : CompactSaplingSpend) : Fields
  | 1, rs => rs = string 1 spend.nf
  | _, rs => rs = []

def CompactSaplingOutput.fields (output : CompactSaplingOutput) : Fields
  | 1, rs => rs = string 1 output.cmu
  | 2, rs => rs = string 2 output.ephemeralKey
  | 3, rs => rs = string 3 output.ciphertext
  | _, rs => rs = []

def CompactOrchardAction.fields (action : CompactOrchardAction) : Fields
  | 1, rs => rs = string 1 action.nullifier
  | 2, rs => rs = string 2 action.cmx
  | 3, rs => rs = string 3 action.ephemeralKey
  | 4, rs => rs = string 4 action.ciphertext
  | _, rs => rs = []

def CompactTx.fields (tx : CompactTx) : Fields
  | 1, rs => rs = scalar 1 tx.index.toNat
  | 2, rs => rs = string 2 tx.hash
  | 3, rs => rs = scalar 3 tx.fee.toNat
  | 4, rs => Messages 4 (fun s => Encodes (CompactSaplingSpend.fields s)) tx.spends rs
  | 5, rs => Messages 5 (fun o => Encodes (CompactSaplingOutput.fields o)) tx.outputs rs
  | 6, rs => Messages 6 (fun a => Encodes (CompactOrchardAction.fields a)) tx.actions rs
  | _, rs => rs = []

def CompactBlock.fields (block : CompactBlock) : Fields
  | 1, rs => rs = scalar 1 block.protoVersion.toNat
  | 2, rs => rs = scalar 2 block.height.toNat
  | 3, rs => rs = string 3 block.hash
  | 4, rs => rs = string 4 block.prevHash
  | 5, rs => rs = scalar 5 block.time.toNat
  | 6, rs => rs = string 6 block.header
  | 7, rs => Messages 7 (fun tx => Encodes (CompactTx.fields tx)) block.vtx rs
  | 8, rs => Messages 8 (fun m => Encodes (ChainMetadata.fields m)) block.chainMetadata.toList rs
  | _, rs => rs = []

/-! What a client wants of a message. -/

def CompactSaplingSpend.view (spend : CompactSaplingSpend) : CompactSpend := ⟨spend.nf⟩

def CompactSaplingOutput.view (output : CompactSaplingOutput) : CompactOutput :=
  ⟨output.cmu, output.ephemeralKey, output.ciphertext⟩

def CompactTx.view (tx : CompactTx) : Lightwalletd.CompactTx :=
  ⟨tx.hash, tx.spends.map CompactSaplingSpend.view, tx.outputs.map CompactSaplingOutput.view⟩

def CompactBlock.view (block : CompactBlock) : Lightwalletd.CompactBlock :=
  ⟨block.height.toNat, block.vtx.map CompactTx.view⟩

end Proto

/-! ## Varints -/

theorem varintLoop_last {v : Nat} (h : v < 128) (rest : Bytes) (value : BitVec 32) (shift : Nat) :
    varintLoop (.ofNat v :: rest) value shift =
      (value ||| (BitVec.ofNat 32 v <<< (shift % 32)), 1) := by
  have hbyte : (UInt8.ofNat v).toNat = v := UInt8.toNat_ofNat_of_lt' (h.trans (by decide))
  unfold varintLoop
  rw [hbyte, if_pos h, Nat.mod_eq_of_lt h]

theorem varintLoop_more (v : Nat) (rest : Bytes) (value : BitVec 32) (shift : Nat) :
    varintLoop (.ofNat (v % 128 + 128) :: rest) value shift =
      ((varintLoop rest (value ||| (BitVec.ofNat 32 (v % 128) <<< (shift % 32))) (shift + 7)).1,
       (varintLoop rest (value ||| (BitVec.ofNat 32 (v % 128) <<< (shift % 32))) (shift + 7)).2 + 1) := by
  have hbyte : (UInt8.ofNat (v % 128 + 128)).toNat = v % 128 + 128 :=
    UInt8.toNat_ofNat_of_lt' (show v % 128 + 128 < 256 by omega)
  rw [varintLoop, hbyte, if_neg (by omega), Nat.add_mod_right, Nat.mod_mod]

theorem varintLoop_append {groups v : Nat} (h : v < 128 ^ (groups + 1)) (rest : Bytes)
    (value : BitVec 32) (shift : Nat) :
    varintLoop (varintGroups (groups + 1) v ++ rest) value shift =
      ((varintLoop (varintGroups (groups + 1) v) value shift).1,
       (varintGroups (groups + 1) v).length) := by
  induction groups generalizing v value shift with
  | zero =>
    have hv : v < 128 := by omega
    unfold varintGroups
    rw [if_pos hv, List.singleton_append, varintLoop_last hv, varintLoop_last hv]
    rfl
  | succ groups ih =>
    unfold varintGroups
    split
    · next hv =>
      rw [List.singleton_append, varintLoop_last hv, varintLoop_last hv]
      rfl
    · have hdiv : v / 128 < 128 ^ (groups + 1) := by
        rw [Nat.div_lt_iff_lt_mul (by decide), ← pow_succ]
        exact h
      rw [List.cons_append, varintLoop_more, varintLoop_more, ih hdiv, List.length_cons]

theorem or_shiftLeft {acc v shift : Nat} (hacc : acc < 2 ^ shift) (h : acc + v * 2 ^ shift < 2 ^ 32) :
    BitVec.ofNat 32 acc ||| (BitVec.ofNat 32 v <<< shift) = BitVec.ofNat 32 (acc + v * 2 ^ shift) := by
  have hor := Nat.two_pow_add_eq_or_of_lt hacc v
  have hle : v ≤ v * 2 ^ shift := Nat.le_mul_of_pos_right v (Nat.two_pow_pos shift)
  have hv : v < 2 ^ 32 := by omega
  apply BitVec.eq_of_toNat_eq
  rw [BitVec.toNat_or, BitVec.toNat_shiftLeft, BitVec.toNat_ofNat, BitVec.toNat_ofNat,
    BitVec.toNat_ofNat, Nat.shiftLeft_eq, Nat.mod_eq_of_lt hv, Nat.mod_eq_of_lt h,
    Nat.mod_eq_of_lt (by omega), Nat.mod_eq_of_lt (by omega), Nat.or_comm, Nat.mul_comm v, ← hor,
    Nat.add_comm]

theorem varintLoop_value {groups v acc shift : Nat} (hv : v < 128 ^ (groups + 1))
    (hacc : acc < 2 ^ shift) (hshift : shift < 32) (h : acc + v * 2 ^ shift < 2 ^ 32) :
    (varintLoop (varintGroups (groups + 1) v) (BitVec.ofNat 32 acc) shift).1 =
      BitVec.ofNat 32 (acc + v * 2 ^ shift) := by
  induction groups generalizing v acc shift with
  | zero =>
    have hv : v < 128 := by omega
    unfold varintGroups
    rw [if_pos hv, varintLoop_last hv, Nat.mod_eq_of_lt hshift, or_shiftLeft hacc h]
  | succ groups ih =>
    unfold varintGroups
    split
    · next hv =>
      rw [varintLoop_last hv, Nat.mod_eq_of_lt hshift, or_shiftLeft hacc h]
    · next hge =>
      have hdiv : v / 128 < 128 ^ (groups + 1) := by
        rw [Nat.div_lt_iff_lt_mul (by decide), ← pow_succ]
        exact hv
      have hpow : 2 ^ (shift + 7) = 128 * 2 ^ shift := by rw [Nat.pow_add, Nat.mul_comm]
      have hsum : acc + v % 128 * 2 ^ shift + v / 128 * 2 ^ (shift + 7) = acc + v * 2 ^ shift := by
        rw [hpow, ← Nat.mul_assoc, Nat.add_assoc, ← Nat.add_mul, Nat.mod_add_div']
      have hle : v % 128 * 2 ^ shift ≤ 127 * 2 ^ shift := Nat.mul_le_mul_right _ (by omega)
      have hnext : 2 ^ (shift + 7) ≤ v / 128 * 2 ^ (shift + 7) :=
        Nat.le_mul_of_pos_left _ (by omega)
      have hlt : 2 ^ (shift + 7) < 2 ^ 32 := by omega
      have hshift' : shift + 7 < 32 := (Nat.pow_lt_pow_iff_right (by decide : 1 < 2)).mp hlt
      rw [varintLoop_more, Nat.mod_eq_of_lt hshift, or_shiftLeft hacc (by omega),
        ih hdiv (by omega) hshift' (by omega), hsum]

/-- What the decoder takes a value for. -/
def jsVarint (v : Nat) : Int := (varintLoop (encodeVarint v) 0 0).1.toInt

theorem jsVarint_eq {v : Nat} (h : v < 2 ^ 32) : jsVarint v = (BitVec.ofNat 32 v).toInt := by
  have hvalue : (varintLoop (encodeVarint v) (BitVec.ofNat 32 0) 0).1 =
      BitVec.ofNat 32 (0 + v * 2 ^ 0) :=
    varintLoop_value (h.trans (by decide)) (by decide) (by decide) (by omega)
  unfold jsVarint
  rw [Nat.zero_add, Nat.pow_zero, Nat.mul_one] at hvalue
  rw [← hvalue]
  rfl

theorem jsVarint_of_lt {v : Nat} (h : v < 2 ^ 31) : jsVarint v = v := by
  rw [jsVarint_eq (by omega), BitVec.toInt_eq_toNat_of_lt, BitVec.toNat_ofNat,
    Nat.mod_eq_of_lt (by omega)]
  rw [BitVec.toNat_ofNat, Nat.mod_eq_of_lt (by omega)]
  omega

theorem readVarint_encode (before rest : Bytes) {v : Nat} (h : v < 2 ^ 64) :
    readVarint (before ++ (encodeVarint v ++ rest)) before.length =
      (jsVarint v, (before.length : Int) + (encodeVarint v).length) := by
  unfold readVarint
  rw [if_neg (by omega), Int.toNat_natCast, List.drop_left]
  unfold encodeVarint
  rw [varintLoop_append (h.trans (by decide))]
  rfl

/-! ## The loop -/

theorem byteAt_length (before rest : Bytes) (b : UInt8) :
    byteAt (before ++ b :: rest) before.length = b := by
  unfold byteAt
  rw [if_neg (by omega), Int.toNat_natCast]
  simp

theorem sliceOf_middle (before b rest : Bytes) :
    sliceOf (before ++ (b ++ rest)) before.length ((before.length : Int) + b.length) = b := by
  unfold sliceOf
  simp only
  rw [if_neg (by omega), if_neg (by omega)]
  have hlast : ((before.length : Int) + b.length).toNat = (before ++ b).length := by
    rw [List.length_append]
    omega
  have hle : (before ++ b).length ≤ (before ++ b ++ rest).length :=
    (List.prefix_append _ _).length_le
  have hle' : before.length ≤ (before ++ b ++ rest).length := by
    rw [List.length_append] at hle
    omega
  rw [hlast, Int.toNat_natCast, ← List.append_assoc, Nat.min_eq_left hle, List.take_left,
    Nat.min_eq_left hle', List.drop_left]

section Loop

variable {σ : Type} {onVarint : σ → Nat → Int → σ} {onBytes : σ → Nat → Bytes → Option σ}

/-- What the body does with a record. -/
def onRecord (onVarint : σ → Nat → Int → σ) (onBytes : σ → Nat → Bytes → Option σ) (st : σ) :
    Record → Option σ
  | .varint field v => some (onVarint st field (jsVarint v))
  | .bytes field b => onBytes st field b

theorem readVarint_behind {before rest : Bytes} {tag : UInt8} {v : Nat} (h : v < 2 ^ 64) :
    readVarint (before ++ tag :: (encodeVarint v ++ rest)) ((before.length : Int) + 1) =
      (jsVarint v, ((before ++ tag :: encodeVarint v).length : Int)) := by
  have hread := readVarint_encode (before ++ [tag]) rest h
  rw [List.append_assoc, List.singleton_append, List.length_append] at hread
  rw [show ((before.length : Int) + 1) = ((before.length + [tag].length : Nat) : Int) from rfl, hread]
  simp only [List.length_append, List.length_cons, List.length_nil, Prod.mk.injEq, true_and]
  omega

theorem length_lt_behind (before rest : Bytes) (tag : UInt8) :
    (before.length : Int) < ((before ++ tag :: rest).length : Nat) := by
  rw [List.length_append, List.length_cons]
  omega

theorem fieldLoop_record {before rest : Bytes} {r : Record} (hr : r.Fits)
    (hlen : r.encode.length < 2 ^ 31) (fuel : Nat) (st : σ) :
    fieldLoop onVarint onBytes (before ++ (r.encode ++ rest)) (fuel + 1) before.length st =
      (onRecord onVarint onBytes st r).bind
        (fieldLoop onVarint onBytes (before ++ (r.encode ++ rest)) fuel
          ((before ++ r.encode).length : Int)) := by
  cases r with
  | varint field v =>
    obtain ⟨hfield, hv⟩ := hr
    have htag : (UInt8.ofNat (field * 8)).toNat = field * 8 :=
      UInt8.toNat_ofNat_of_lt' (show field * 8 < 256 by omega)
    rw [Record.encode, List.cons_append, fieldLoop, if_pos (length_lt_behind _ _ _), byteAt_length,
      htag, readVarint_behind hv, if_pos (Nat.mul_mod_left _ _),
      Nat.mul_div_cancel field (by decide)]
    rfl
  | bytes field b =>
    have hb : b.length < 2 ^ 31 := by
      unfold Record.encode at hlen
      rw [List.length_cons, List.length_append] at hlen
      omega
    have hfield : field < 16 := hr
    have htag : (UInt8.ofNat (field * 8 + 2)).toNat = field * 8 + 2 :=
      UInt8.toNat_ofNat_of_lt' (show field * 8 + 2 < 256 by omega)
    rw [Record.encode, List.cons_append, List.append_assoc, fieldLoop,
      if_pos (length_lt_behind _ _ _), byteAt_length, htag, readVarint_behind (by omega),
      if_neg (by omega), if_pos (by omega), jsVarint_of_lt hb]
    have hslice := sliceOf_middle (before ++ .ofNat (field * 8 + 2) :: encodeVarint b.length) b rest
    rw [List.append_assoc, List.cons_append] at hslice
    simp only [hslice]
    have hdiv : (field * 8 + 2) / 8 = field := by omega
    have hlen' : ((before ++ .ofNat (field * 8 + 2) :: (encodeVarint b.length ++ b)).length : Int) =
        ((before ++ .ofNat (field * 8 + 2) :: encodeVarint b.length).length : Int) + b.length := by
      simp only [List.length_append, List.length_cons]
      omega
    rw [hdiv, hlen']
    rfl

theorem fieldLoop_done {data : Bytes} {fuel : Nat} (hfuel : 0 < fuel) (st : σ) :
    fieldLoop onVarint onBytes data fuel data.length st = some st := by
  cases fuel with
  | zero => exact absurd hfuel (lt_irrefl 0)
  | succ fuel => rw [fieldLoop, if_neg (lt_irrefl _)]

theorem fieldLoop_records (before : Bytes) {records : List Record} (hfits : ∀ r ∈ records, r.Fits)
    (hlen : (encodeAll records).length < 2 ^ 31) {fuel : Nat} (hfuel : records.length < fuel)
    (st : σ) :
    fieldLoop onVarint onBytes (before ++ encodeAll records) fuel before.length st =
      records.foldlM (onRecord onVarint onBytes) st := by
  induction records generalizing before fuel st with
  | nil =>
    rw [show encodeAll [] = [] from rfl, List.append_nil]
    exact fieldLoop_done hfuel st
  | cons r rest ih =>
    rw [List.forall_mem_cons] at hfits
    rw [List.length_cons] at hfuel
    have hsplit : encodeAll (r :: rest) = r.encode ++ encodeAll rest := rfl
    rw [hsplit, List.length_append] at hlen
    cases fuel with
    | zero => exact absurd hfuel (Nat.not_lt_zero _)
    | succ fuel =>
      rw [hsplit, fieldLoop_record hfits.1 (by omega), List.foldlM_cons]
      cases onRecord onVarint onBytes st r with
      | none => rfl
      | some st' =>
        have hrest := ih (before ++ r.encode) hfits.2 (by omega) (Nat.lt_of_succ_lt_succ hfuel) st'
        rw [List.append_assoc] at hrest
        exact hrest

variable (onVarint onBytes) in
theorem fieldLoop_ok {records : List Record} (hfits : ∀ r ∈ records, r.Fits)
    (hlen : (encodeAll records).length < 2 ^ 31) {fuel : Nat}
    (hfuel : (encodeAll records).length < fuel)
    (hok : ∀ r ∈ records, ∀ st, (onRecord onVarint onBytes st r).isSome) (st : σ) :
    ∃ result, fieldLoop onVarint onBytes (encodeAll records) fuel 0 st = some result ∧
      records.foldlM (onRecord onVarint onBytes) st = some result := by
  obtain ⟨result, hresult⟩ := Option.isSome_iff_exists.mp (foldlM_isSome hok st)
  refine ⟨result, ?_, hresult⟩
  rw [← hresult]
  exact fieldLoop_records [] hfits hlen ((length_records_le records).trans_lt hfuel) st

theorem fieldLoop_mono {onBytes' : σ → Nat → Bytes → Option σ} {data : Bytes} {fuel fuel' : Nat}
    (hle : fuel ≤ fuel')
    (hbytes : ∀ st field b st', onBytes st field b = some st' → onBytes' st field b = some st')
    {offset : Int} {st result : σ} (h : fieldLoop onVarint onBytes data fuel offset st = some result) :
    fieldLoop onVarint onBytes' data fuel' offset st = some result := by
  induction fuel generalizing fuel' offset st with
  | zero => nomatch h
  | succ fuel ih =>
    obtain ⟨fuel', rfl⟩ := Nat.exists_eq_add_of_le' (Nat.le_trans (Nat.le_add_left 1 fuel) hle)
    have hle' : fuel ≤ fuel' := Nat.le_of_succ_le_succ hle
    rw [fieldLoop] at h ⊢
    split at h
    · next hoffset =>
      rw [if_pos hoffset]
      dsimp only at h ⊢
      split at h
      · next hvarint =>
        rw [if_pos hvarint]
        exact ih hle' h
      · next hvarint =>
        rw [if_neg hvarint]
        split at h
        · next hstring =>
          rw [if_pos hstring]
          obtain ⟨st', hst', h⟩ := Option.bind_eq_some_iff.mp h
          exact Option.bind_eq_some_iff.mpr ⟨st', hbytes _ _ _ _ hst', ih hle' h⟩
        · next hstring =>
          rw [if_neg hstring]
          exact h
    · next hoffset =>
      rw [if_neg hoffset]
      exact h

end Loop

/-! ## Spends and outputs -/

theorem parseCompactSpend_encodes {spend : Proto.CompactSaplingSpend} {b : Bytes}
    (h : Encodes spend.fields b) (hlen : b.length < 2 ^ 31) {fuel : Nat} (hfuel : b.length < fuel) :
    parseCompactSpend fuel b = some spend.view := by
  obtain ⟨records, hfields, hfits, rfl⟩ := h
  obtain ⟨result, hloop, hresult⟩ := fieldLoop_ok (fun st _ _ => st)
    (fun st f b => some (spendField st f b)) hfits hlen hfuel
    (by rintro (_ | _) _ _ <;> rfl) ⟨[]⟩
  have hnf := foldlM_component 1 CompactSpend.nf keepBytes (by
    rintro st (_ | _) st' h <;> grind [onRecord, spendField, keepBytes, Record.field]) hresult
  rw [hfields 1, foldlM_string] at hnf
  unfold parseCompactSpend
  rw [hloop, Proto.CompactSaplingSpend.view, Option.some.inj hnf]

theorem parseCompactOutput_encodes {output : Proto.CompactSaplingOutput} {b : Bytes}
    (h : Encodes output.fields b) (hlen : b.length < 2 ^ 31) {fuel : Nat} (hfuel : b.length < fuel) :
    parseCompactOutput fuel b = some output.view := by
  obtain ⟨records, hfields, hfits, rfl⟩ := h
  obtain ⟨result, hloop, hresult⟩ := fieldLoop_ok (fun st _ _ => st)
    (fun st f b => some (outputField st f b)) hfits hlen hfuel
    (by rintro (_ | _) _ _ <;> rfl) ⟨[], [], []⟩
  have hcmu := foldlM_component 1 CompactOutput.cmu keepBytes (by
    rintro st (_ | _) st' h <;> grind [onRecord, outputField, keepBytes, Record.field]) hresult
  have hkey := foldlM_component 2 CompactOutput.ephemeralKey keepBytes (by
    rintro st (_ | _) st' h <;> grind [onRecord, outputField, keepBytes, Record.field]) hresult
  have hciphertext := foldlM_component 3 CompactOutput.ciphertext keepBytes (by
    rintro st (_ | _) st' h <;> grind [onRecord, outputField, keepBytes, Record.field]) hresult
  rw [hfields 1, foldlM_string] at hcmu
  rw [hfields 2, foldlM_string] at hkey
  rw [hfields 3, foldlM_string] at hciphertext
  unfold parseCompactOutput
  rw [hloop, Proto.CompactSaplingOutput.view, Option.some.inj hcmu, Option.some.inj hkey,
    Option.some.inj hciphertext]

/-! ## Transactions -/

theorem mem_filter_field {records : List Record} {field : Nat} {b : Bytes}
    (h : .bytes field b ∈ records) :
    .bytes field b ∈ records.filter fun r => r.field = field :=
  List.mem_filter.mpr ⟨h, by simp [Record.field]⟩

theorem txField_parts {fuel : Nat} {st st' : CompactTx} {r : Record}
    (h : onRecord (fun st _ _ => st) (txField fuel) st r = some st') :
    (if r.field = 2 then keepBytes st.hash r = some st'.hash else st'.hash = st.hash) ∧
    (if r.field = 4 then collect (parseCompactSpend fuel) st.spends r = some st'.spends
      else st'.spends = st.spends) ∧
    (if r.field = 5 then collect (parseCompactOutput fuel) st.outputs r = some st'.outputs
      else st'.outputs = st.outputs) := by
  cases r with
  | varint field v =>
    obtain rfl := Option.some.inj h
    simp [keepBytes, collect]
  | bytes field b =>
    unfold onRecord txField at h
    simp only at h
    split at h
    · next h2 =>
      obtain rfl := Option.some.inj h
      simp [keepBytes, Record.field, h2]
    · split at h
      · next h4 =>
        obtain ⟨s, hs, rfl⟩ := Option.map_eq_some_iff.mp h
        simp [collect, Record.field, h4, hs]
      · split at h
        · next h5 =>
          obtain ⟨o, ho, rfl⟩ := Option.map_eq_some_iff.mp h
          simp [collect, Record.field, h5, ho]
        · next h2 h4 h5 =>
          obtain rfl := Option.some.inj h
          simp [Record.field, h2, h4, h5]

theorem txField_isSome {tx : Proto.CompactTx} {records : List Record}
    (hfields : ∀ field, tx.fields field (records.filter fun r => r.field = field))
    (hlen : (encodeAll records).length < 2 ^ 31) {fuel : Nat}
    (hfuel : (encodeAll records).length < fuel) {r : Record} (hr : r ∈ records)
    (st : CompactTx) : (onRecord (fun st _ _ => st) (txField fuel) st r).isSome := by
  cases r with
  | varint field v => rfl
  | bytes field b =>
    have hb := length_bytes_lt hr
    have hmem := mem_filter_field hr
    unfold onRecord txField
    simp only
    split
    · rfl
    · split
      · next h4 =>
        subst h4
        obtain ⟨spend, -, hspend⟩ := (hfields 4).encodes_of_mem hmem
        rw [parseCompactSpend_encodes hspend (hb.trans hlen) (hb.trans hfuel)]
        rfl
      · split
        · next h5 =>
          subst h5
          obtain ⟨output, -, houtput⟩ := (hfields 5).encodes_of_mem hmem
          rw [parseCompactOutput_encodes houtput (hb.trans hlen) (hb.trans hfuel)]
          rfl
        · rfl

/-- The transactions of the schema are read as they are. -/
theorem parseCompactTx_encodes {tx : Proto.CompactTx} {b : Bytes} (h : Encodes tx.fields b)
    (hlen : b.length < 2 ^ 31) {fuel : Nat} (hfuel : b.length < fuel) :
    parseCompactTx fuel b = some tx.view := by
  obtain ⟨records, hfields, hfits, rfl⟩ := h
  obtain ⟨result, hloop, hresult⟩ := fieldLoop_ok (fun st _ _ => st) (txField fuel) hfits hlen hfuel
    (fun r hr st => txField_isSome hfields hlen hfuel hr st) ⟨[], [], []⟩
  have hhash := foldlM_component 2 CompactTx.hash keepBytes
    (fun _ _ _ h => (txField_parts h).1) hresult
  have hspends := foldlM_component 4 CompactTx.spends (collect (parseCompactSpend fuel))
    (fun _ _ _ h => (txField_parts h).2.1) hresult
  have houtputs := foldlM_component 5 CompactTx.outputs (collect (parseCompactOutput fuel))
    (fun _ _ _ h => (txField_parts h).2.2) hresult
  have hshort : ∀ {field} {b : Bytes}, Record.bytes field b ∈
      records.filter (fun r => r.field = field) → b.length < 2 ^ 31 ∧ b.length < fuel := by
    intro field b hb
    have hlt := length_bytes_lt (List.mem_of_mem_filter hb)
    exact ⟨hlt.trans hlen, hlt.trans hfuel⟩
  rw [hfields 2, foldlM_string] at hhash
  rw [foldlM_messages (hfields 4) fun spend b hb hspend =>
    parseCompactSpend_encodes hspend (hshort hb).1 (hshort hb).2] at hspends
  rw [foldlM_messages (hfields 5) fun output b hb houtput =>
    parseCompactOutput_encodes houtput (hshort hb).1 (hshort hb).2] at houtputs
  unfold parseCompactTx
  obtain ⟨hash, spends, outputs⟩ := result
  obtain rfl : tx.hash = hash := Option.some.inj hhash
  obtain rfl : [] ++ _ = spends := Option.some.inj hspends
  obtain rfl : [] ++ _ = outputs := Option.some.inj houtputs
  exact hloop

/-! ## Blocks -/

theorem blockField_parts {fuel : Nat} {st st' : CompactBlock} {r : Record}
    (h : onRecord blockNumber (blockField fuel) st r = some st') :
    (if r.field = 1 then keepVarint jsVarint st.height r = some st'.height
      else st'.height = st.height) ∧
    (if r.field = 4 then collect (parseCompactTx fuel) st.transactions r = some st'.transactions
      else st'.transactions = st.transactions) := by
  cases r with
  | varint field v =>
    obtain rfl := Option.some.inj h
    unfold blockNumber
    by_cases h1 : field = 1 <;> simp [keepVarint, collect, Record.field, h1]
  | bytes field b =>
    unfold onRecord blockField at h
    simp only at h
    split at h
    · next h4 =>
      obtain ⟨tx, htx, rfl⟩ := Option.map_eq_some_iff.mp h
      simp [collect, Record.field, h4, htx]
    · next h4 =>
      obtain rfl := Option.some.inj h
      simp [keepVarint, Record.field, h4]

/-- The transactions that the decoder finds in the hash of the block before. -/
def txsOf (fuel : Nat) (prevHash : Bytes) : Option (List CompactTx) :=
  if prevHash = [] then some [] else (parseCompactTx fuel prevHash).map fun tx => [tx]

theorem foldlM_prevHash (fuel : Nat) (prevHash : Bytes) :
    (string 4 prevHash).foldlM (collect (parseCompactTx fuel)) [] = txsOf fuel prevHash := by
  unfold string txsOf
  split
  · rfl
  · cases h : parseCompactTx fuel prevHash <;> simp [collect, h]

theorem blockField_isSome {fuel : Nat} {prevHash : Bytes} {records : List Record}
    (hfields : (records.filter fun r => r.field = 4) = string 4 prevHash)
    (htxs : (txsOf fuel prevHash).isSome) {r : Record} (hr : r ∈ records) (st : CompactBlock) :
    (onRecord blockNumber (blockField fuel) st r).isSome := by
  cases r with
  | varint field v => rfl
  | bytes field b =>
    unfold onRecord blockField
    simp only
    split
    · next h4 =>
      subst h4
      have hmem := mem_filter_field hr
      rw [hfields] at hmem
      unfold string at hmem
      unfold txsOf at htxs
      split at hmem
      · exact absurd hmem List.not_mem_nil
      · next hne =>
        obtain ⟨-, rfl⟩ := Record.bytes.inj (List.mem_singleton.mp hmem)
        rw [if_neg hne, Option.isSome_map] at htxs
        rwa [Option.isSome_map]
    · rfl

theorem parseCompactBlock_encodes {block : Proto.CompactBlock} {b : Bytes}
    (h : Encodes block.fields b) (hlen : b.length < 2 ^ 31) {fuel : Nat} (hfuel : b.length < fuel) :
    parseCompactBlock fuel b = (txsOf fuel block.prevHash).map fun txs =>
      ⟨block.protoVersion.toBitVec.toInt, txs⟩ := by
  obtain ⟨records, hfields, hfits, rfl⟩ := h
  have hloop : parseCompactBlock fuel (encodeAll records) =
      records.foldlM (onRecord blockNumber (blockField fuel)) ⟨0, []⟩ :=
    fieldLoop_records [] hfits hlen ((length_records_le records).trans_lt hfuel) _
  rw [hloop]
  cases hresult : records.foldlM (onRecord blockNumber (blockField fuel)) ⟨0, []⟩ with
  | some result =>
    have hheight := foldlM_component 1 CompactBlock.height (keepVarint jsVarint)
      (fun _ _ _ h => (blockField_parts h).1) hresult
    have htxs := foldlM_component 4 CompactBlock.transactions (collect (parseCompactTx fuel))
      (fun _ _ _ h => (blockField_parts h).2) hresult
    rw [hfields 1] at hheight
    rw [hfields 4, foldlM_prevHash] at htxs
    have hversion := foldlM_scalar jsVarint 1 block.protoVersion.toNat
    rw [show jsVarint 0 = 0 from rfl, hheight, jsVarint_eq block.protoVersion.toNat_lt] at hversion
    obtain ⟨height, txs⟩ := result
    obtain rfl := Option.some.inj hversion
    have hbits : BitVec.ofNat 32 block.protoVersion.toNat = block.protoVersion.toBitVec :=
      (BitVec.ofNat_toNat _ _).trans (BitVec.setWidth_eq _)
    rw [htxs, Option.map_some, hbits]
  | none =>
    cases htxs : txsOf fuel block.prevHash with
    | none => rfl
    | some txs =>
      have hsome : (records.foldlM (onRecord blockNumber (blockField fuel)) ⟨0, []⟩).isSome :=
        foldlM_isSome (fun r hr st => blockField_isSome (hfields 4) (by rw [htxs]; rfl) hr st) _
      rw [hresult] at hsome
      exact absurd hsome Bool.false_ne_true

/-! ## Fuel -/

theorem parseCompactTx_mono {fuel fuel' : Nat} (hle : fuel ≤ fuel') {b : Bytes} {tx : CompactTx}
    (h : parseCompactTx fuel b = some tx) : parseCompactTx fuel' b = some tx := by
  refine fieldLoop_mono hle ?_ h
  intro st field b st' hst'
  unfold txField at hst' ⊢
  split at hst'
  · next h2 =>
    rw [if_pos h2]
    exact hst'
  · next h2 =>
    rw [if_neg h2]
    split at hst'
    · next h4 =>
      obtain ⟨s, hs, rfl⟩ := Option.map_eq_some_iff.mp hst'
      rw [if_pos h4, show parseCompactSpend fuel' b = some s from
        fieldLoop_mono hle (fun _ _ _ _ h => h) hs, Option.map_some]
    · next h4 =>
      rw [if_neg h4]
      split at hst'
      · next h5 =>
        obtain ⟨o, ho, rfl⟩ := Option.map_eq_some_iff.mp hst'
        rw [if_pos h5, show parseCompactOutput fuel' b = some o from
          fieldLoop_mono hle (fun _ _ _ _ h => h) ho, Option.map_some]
      · next h5 =>
        rw [if_neg h5]
        exact hst'

theorem parseCompactBlock_mono {fuel fuel' : Nat} (hle : fuel ≤ fuel') {b : Bytes}
    {block : CompactBlock} (h : parseCompactBlock fuel b = some block) :
    parseCompactBlock fuel' b = some block := by
  refine fieldLoop_mono hle ?_ h
  intro st field b st' hst'
  unfold blockField at hst' ⊢
  split at hst'
  · next h4 =>
    obtain ⟨tx, htx, rfl⟩ := Option.map_eq_some_iff.mp hst'
    rw [if_pos h4, parseCompactTx_mono hle htx, Option.map_some]
  · next h4 =>
    rw [if_neg h4]
    exact hst'

/-! ## The whole decoder -/

/-- A block is read as it is just if its height is its version, and its transactions are what its
hash of the block before reads as: none if that is empty, and else the one that it encodes. -/
theorem parseCompactBlock_iff {block : Proto.CompactBlock} {b : Bytes}
    (h : Encodes block.fields b) (hlen : b.length < 2 ^ 31) :
    (∃ fuel, parseCompactBlock fuel b = some block.view) ↔
      block.protoVersion.toBitVec.toInt = block.height.toNat ∧
      ((block.prevHash = [] ∧ block.vtx = []) ∨
        (block.prevHash ≠ [] ∧ ∃ tx, block.vtx = [tx] ∧
          ∃ fuel, parseCompactTx fuel block.prevHash = some tx.view)) := by
  constructor
  · rintro ⟨fuel, hparse⟩
    have hparse := parseCompactBlock_mono (Nat.le_add_right fuel (b.length + 1)) hparse
    rw [parseCompactBlock_encodes h hlen (by omega)] at hparse
    obtain ⟨txs, htxs, hview⟩ := Option.map_eq_some_iff.mp hparse
    obtain ⟨hheight, hvtx⟩ := CompactBlock.mk.inj hview
    refine ⟨hheight, ?_⟩
    unfold txsOf at htxs
    split at htxs
    · next hnil =>
      obtain rfl := Option.some.inj htxs
      exact .inl ⟨hnil, List.map_eq_nil_iff.mp hvtx.symm⟩
    · next hne =>
      obtain ⟨tx', htx', rfl⟩ := Option.map_eq_some_iff.mp htxs
      obtain ⟨tx, htx, rfl⟩ := List.map_eq_singleton_iff.mp hvtx.symm
      exact .inr ⟨hne, tx, htx, _, htx'⟩
  · rintro ⟨hheight, hvtx⟩
    have hread : ∃ fuel, b.length < fuel ∧
        txsOf fuel block.prevHash = some (block.vtx.map Proto.CompactTx.view) := by
      rcases hvtx with ⟨hnil, hvtx⟩ | ⟨hne, tx, hvtx, fuel, htx⟩
      · refine ⟨b.length + 1, Nat.lt_succ_self _, ?_⟩
        unfold txsOf
        rw [if_pos hnil, hvtx, List.map_nil]
      · refine ⟨fuel + (b.length + 1), by omega, ?_⟩
        unfold txsOf
        rw [if_neg hne, parseCompactTx_mono (Nat.le_add_right fuel _) htx, hvtx]
        rfl
    obtain ⟨fuel, hfuel, hread⟩ := hread
    refine ⟨fuel, ?_⟩
    rw [parseCompactBlock_encodes h hlen hfuel, hread, Option.map_some, hheight]
    rfl

section Samples

open Proto

/-- A transaction that has a hash. -/
def hashedTx : Proto.CompactTx := ⟨0, [5], 0, [], [], []⟩

theorem hashedTx_encodes : Encodes hashedTx.fields (encodeAll [.bytes 2 [5]]) := by
  refine ⟨_, ?_, by decide, rfl⟩
  intro field
  match field with
  | 0 | 1 | 2 | 3 => rfl
  | 4 | 5 | 6 => exact .nil
  | n + 7 => simp [Record.field, CompactTx.fields]

/-- Version 1 at height 1, where the hash of the block before happens to read as the transaction. -/
def mirrorBlock : Proto.CompactBlock :=
  ⟨1, 1, [], encodeAll [.bytes 2 [5]], 0, [], [hashedTx], none⟩

def mirrorRecords : List Record :=
  [.varint 1 1, .varint 2 1, .bytes 4 (encodeAll [.bytes 2 [5]]),
   .bytes 7 (encodeAll [.bytes 2 [5]])]

theorem mirrorBlock_encodes : Encodes mirrorBlock.fields (encodeAll mirrorRecords) := by
  refine ⟨mirrorRecords, ?_, by decide, rfl⟩
  intro field
  match field with
  | 0 | 1 | 2 | 3 | 4 | 5 | 6 => rfl
  | 7 => exact .cons ⟨_, hashedTx_encodes, rfl⟩ .nil
  | 8 => exact .nil
  | n + 9 => simp [mirrorRecords, Record.field, CompactBlock.fields]

theorem parseCompactBlock_mirror :
    ∃ fuel, parseCompactBlock fuel (encodeAll mirrorRecords) = some mirrorBlock.view := by
  have hread : parseCompactTx 100 (encodeAll [.bytes 2 [5]]) = some hashedTx.view := by
    decide +kernel
  exact (parseCompactBlock_iff mirrorBlock_encodes (by decide)).mpr
    ⟨rfl, .inr ⟨by decide, hashedTx, rfl, 100, hread⟩⟩

/-- A block with this transaction at a height of the main chain. -/
def hashedBlock : Proto.CompactBlock := ⟨1, 2600000, [7], [9], 0, [], [hashedTx], none⟩

def hashedRecords : List Record :=
  [.varint 1 1, .varint 2 2600000, .bytes 3 [7], .bytes 4 [9],
   .bytes 7 (encodeAll [.bytes 2 [5]])]

theorem hashedBlock_encodes : Encodes hashedBlock.fields (encodeAll hashedRecords) := by
  refine ⟨hashedRecords, ?_, by decide, rfl⟩
  intro field
  match field with
  | 0 | 1 | 2 | 3 | 4 | 5 | 6 => rfl
  | 7 => exact .cons ⟨_, hashedTx_encodes, rfl⟩ .nil
  | 8 => exact .nil
  | n + 9 => simp [hashedRecords, Record.field, CompactBlock.fields]

/-- The decoder answers with height 1 and a transaction without a hash. -/
theorem parseCompactBlock_hashed :
    Encodes hashedBlock.fields (encodeAll hashedRecords) ∧
    ∀ fuel, parseCompactBlock fuel (encodeAll hashedRecords) ≠ some hashedBlock.view := by
  refine ⟨hashedBlock_encodes, ?_⟩
  intro fuel h
  have hread : parseCompactBlock 100 (encodeAll hashedRecords) = some ⟨1, [⟨[], [], []⟩]⟩ := by
    decide +kernel
  have h' := parseCompactBlock_mono (Nat.le_add_right fuel 100) h
  rw [parseCompactBlock_mono (Nat.le_add_left 100 fuel) hread] at h'
  exact absurd (Option.some.inj h') (by decide)

end Samples

end Lightwalletd
