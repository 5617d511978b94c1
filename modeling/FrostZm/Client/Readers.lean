import FrostZm.Client.CompactBlocks
import FrostZm.Lib.Walks

/-!
# When the readers of gRPC answers end

The readers go on by lengths that they have read, and these are signed numbers of 32 bits. A
negative one leads back, and a reader that is led back to an offset reads on from there as before.
-/

open Walks

namespace Lightwalletd

/-! ## Frames -/

/-- `data[i]`, or `undefined`. -/
def byte? (data : Bytes) (i : Int) : Option UInt8 := if i < 0 then none else data[i.toNat]?

def shiftedByte (data : Bytes) (i : Int) (shift : Nat) : BitVec 32 :=
  BitVec.ofNat 32 (byteAt data i).toNat <<< shift

def frameLength (data : Bytes) (offset : Int) : Int :=
  (shiftedByte data (offset + 1) 24 ||| shiftedByte data (offset + 2) 16 |||
    shiftedByte data (offset + 3) 8 ||| shiftedByte data (offset + 4) 0).toInt

def frameLoop (data : Bytes) : Nat → Int → List Bytes → Option (List Bytes)
  | 0, _, _ => none
  | fuel + 1, offset, frames =>
    if offset < data.length then
      if offset + 5 > data.length then some frames
      else
        let length := frameLength data offset
        if offset + 5 + length > data.length then some frames
        else
          -- frames with another flag are trailers
          let frames := if byte? data offset = some 0 then
              frames ++ [sliceOf data (offset + 5) (offset + 5 + length)]
            else frames
          frameLoop data fuel (offset + 5 + length) frames
    else some frames

def decodeGrpcWebFrames (fuel : Nat) (data : Bytes) : Option (List Bytes) := frameLoop data fuel 0 []

/-! ## Readers that look for one field -/

/-- The loop of a reader that returns at the field it looks for. At a wire type other than 0 and 2
it breaks, or goes on behind the tag. -/
def scanLoop {ρ : Type} (goesOn : Bool) (answer : Nat → Nat → Int × Int → Option ρ) (otherwise : ρ)
    (data : Bytes) : Nat → Int → Option ρ
  | 0, _ => none
  | fuel + 1, offset =>
    if offset < data.length then
      let tag := (byteAt data offset).toNat
      let fieldNumber := tag / 8
      let wireType := tag % 8
      let v := readVarint data (offset + 1)
      match answer fieldNumber wireType v with
      | some result => some result
      | none =>
        if wireType = 0 then scanLoop goesOn answer otherwise data fuel v.2
        else if wireType = 2 then scanLoop goesOn answer otherwise data fuel (v.2 + v.1)
        else if goesOn then scanLoop goesOn answer otherwise data fuel (offset + 1)
        else some otherwise
    else some otherwise

/-- Whether the field is the one that a reader looks for. -/
def isField (field wire fieldNumber wireType : Nat) : Bool :=
  fieldNumber = field ∧ wireType = wire

def readBlockHeight (fuel : Nat) (data : Bytes) : Option Int :=
  scanLoop true (fun f w v => if isField 1 0 f w then some v.1 else none) 0 data fuel 0

/-- `decode` is that of a `TextDecoder`. -/
def parseTreeStateSaplingTree (decode : Bytes → String) (fuel : Nat) (data : Bytes) :
    Option (Except String String) :=
  scanLoop false
    (fun f w v => if isField 5 2 f w then some (.ok (decode (sliceOf data v.2 (v.2 + v.1)))) else none)
    (.error "TreeState response did not include saplingTree") data fuel 0

def parseRawTransactionData (fuel : Nat) (data : Bytes) : Option Bytes :=
  scanLoop false
    (fun f w v => if isField 1 2 f w then some (sliceOf data v.2 (v.2 + v.1)) else none)
    [] data fuel 0

/-! ## The offsets of a reader -/

/-- The offset behind a frame. -/
def nextFrame (data : Bytes) (offset : Int) : Option Int :=
  if offset < data.length ∧ offset + 5 ≤ data.length ∧
      offset + 5 + frameLength data offset ≤ data.length then
    some (offset + 5 + frameLength data offset)
  else none

/-- The offset behind a field, unless a reader stops there. -/
def nextField (stops : Nat → Nat → Bool) (goesOn : Bool) (data : Bytes) (offset : Int) : Option Int :=
  if offset < data.length then
    let tag := (byteAt data offset).toNat
    let v := readVarint data (offset + 1)
    if stops (tag / 8) (tag % 8) then none
    else if tag % 8 = 0 then some v.2
    else if tag % 8 = 2 then some (v.2 + v.1)
    else if goesOn then some (offset + 1)
    else none
  else none

/-- The offsets of the decoders of messages. -/
def nextPart : Bytes → Int → Option Int := nextField (fun _ _ => false) false

/-- The string of bytes at an offset, with its field number. -/
def partAt (data : Bytes) (offset : Int) : Option (Nat × Bytes) :=
  if offset < data.length ∧ (byteAt data offset).toNat % 8 = 2 then
    let len := readVarint data (offset + 1)
    some ((byteAt data offset).toNat / 8, sliceOf data len.2 (len.2 + len.1))
  else none

/-- A decoder of the message comes to this string of bytes. -/
def Reaches (data : Bytes) (fieldNumber : Nat) (part : Bytes) : Prop :=
  ∃ m offset, after (nextPart data) m 0 = some offset ∧ partAt data offset = some (fieldNumber, part)

/-- Some offset on the way leads back to itself. -/
def PartsClose (data : Bytes) : Prop := Closes (nextPart data) 0

/-! ## Ending -/

/-- A reader has an answer after some number of turns. -/
def EndsOn {ρ : Type} (read : Nat → Bytes → Option ρ) (data : Bytes) : Prop :=
  ∃ fuel, (read fuel data).isSome

/-- Every reader ends on these bytes. -/
structure AllEnd (decode : Bytes → String) (data : Bytes) : Prop where
  frames : EndsOn decodeGrpcWebFrames data
  block : EndsOn parseCompactBlock data
  tx : EndsOn parseCompactTx data
  spend : EndsOn parseCompactSpend data
  output : EndsOn parseCompactOutput data
  treeState : EndsOn (parseTreeStateSaplingTree decode) data
  rawTransaction : EndsOn parseRawTransactionData data
  blockHeight : EndsOn readBlockHeight data

/-- No chain of frames or fields from the start leads back to an offset that it has passed, in the
bytes or in the messages inside that the decoders go into. -/
structure NothingCloses (data : Bytes) : Prop where
  frames : ¬ Closes (nextFrame data) 0
  parts : ¬ PartsClose data
  inTx : ∀ part, Reaches data 4 part ∨ Reaches data 5 part → ¬ PartsClose part
  inBlock : ∀ tx part, Reaches data 4 tx → Reaches tx 4 part ∨ Reaches tx 5 part → ¬ PartsClose part
  treeState : ¬ Closes (nextField (isField 5 2) false data) 0
  rawTransaction : ¬ Closes (nextField (isField 1 2) false data) 0
  blockHeight : ¬ Closes (nextField (isField 1 0) true data) 0

variable {data : Bytes} {offset : Int}

/-! ## Bounds -/

theorem byteAt_of_neg (h : offset < 0) : byteAt data offset = 0 := if_pos h

theorem varintLoop_le (rest : Bytes) (value : BitVec 32) (shift : Nat) :
    (varintLoop rest value shift).2 ≤ rest.length := by
  induction rest generalizing value shift with
  | nil => exact le_refl 0
  | cons byte rest ih =>
    rw [varintLoop]
    split
    · exact Nat.succ_le_succ (Nat.zero_le _)
    · exact Nat.succ_le_succ (ih _ _)

theorem readVarint_bounds (hle : offset ≤ data.length) :
    (-2 ^ 31 ≤ (readVarint data offset).1 ∧ (readVarint data offset).1 < 2 ^ 31) ∧
      offset ≤ (readVarint data offset).2 ∧ (readVarint data offset).2 ≤ data.length := by
  unfold readVarint
  split
  · next hneg =>
    dsimp only
    omega
  · have hcount := varintLoop_le (data.drop offset.toNat) 0 0
    rw [List.length_drop] at hcount
    have hlow := (varintLoop (data.drop offset.toNat) 0 0).1.le_two_mul_toInt
    have hhigh := (varintLoop (data.drop offset.toNat) 0 0).1.two_mul_toInt_lt
    dsimp only
    omega

theorem frameLength_bounds (data : Bytes) (offset : Int) : -2 ^ 31 ≤ frameLength data offset := by
  have hlow := (shiftedByte data (offset + 1) 24 ||| shiftedByte data (offset + 2) 16 |||
    shiftedByte data (offset + 3) 8 ||| shiftedByte data (offset + 4) 0).le_two_mul_toInt
  unfold frameLength
  omega

/-- In front of the data there is nothing. -/
theorem frameLength_of_neg (h : offset + 4 < 0) : frameLength data offset = 0 := by
  have hbyte : ∀ i, i < 0 → ∀ shift, shiftedByte data i shift = 0 := by
    intro i hi shift
    rw [shiftedByte, byteAt_of_neg hi]
    exact BitVec.zero_shiftLeft shift
  unfold frameLength
  rw [hbyte _ (by omega), hbyte _ (by omega), hbyte _ (by omega), hbyte _ h]
  rfl

theorem nextFrame_bounds {next : Int} (hlow : -2 ^ 31 ≤ offset) (h : nextFrame data offset = some next) :
    -2 ^ 31 ≤ next ∧ next ≤ data.length := by
  unfold nextFrame at h
  split at h
  · next hcond =>
    obtain rfl := Option.some.inj h
    refine ⟨?_, hcond.2.2⟩
    by_cases hneg : offset + 4 < 0
    · rw [frameLength_of_neg hneg]
      omega
    · have hlen := frameLength_bounds data offset
      omega
  · cases h

theorem nextField_bounds {stops : Nat → Nat → Bool} {goesOn : Bool} {next : Int}
    (hlow : -2 ^ 31 ≤ offset) (h : nextField stops goesOn data offset = some next) :
    -2 ^ 31 ≤ next ∧ next ≤ data.length + 2 ^ 31 := by
  unfold nextField at h
  split at h
  · next hlt =>
    have hv := readVarint_bounds (show offset + 1 ≤ data.length by omega)
    dsimp only at h
    split at h
    · cases h
    split at h
    · obtain rfl := Option.some.inj h
      omega
    split at h
    · next hwire =>
      obtain rfl := Option.some.inj h
      have hinside : 0 ≤ offset := by
        by_contra hneg
        rw [byteAt_of_neg (by omega)] at hwire
        cases hwire
      omega
    split at h
    · obtain rfl := Option.some.inj h
      omega
    · cases h
  · cases h

theorem ends_frames_iff (data : Bytes) :
    Ends (nextFrame data) 0 ↔ ¬ Closes (nextFrame data) 0 :=
  ends_iff_of_between ⟨by decide, Int.natCast_nonneg _⟩ fun _ _ => nextFrame_bounds

theorem ends_fields_iff (stops : Nat → Nat → Bool) (goesOn : Bool) (data : Bytes) :
    Ends (nextField stops goesOn data) 0 ↔ ¬ Closes (nextField stops goesOn data) 0 :=
  ends_iff_of_between ⟨by decide, by omega⟩ fun _ _ => nextField_bounds

/-! ## Answers -/

theorem frameLoop_isSome_iff (fuel : Nat) (offset : Int) (frames : List Bytes) :
    (frameLoop data fuel offset frames).isSome ↔ after (nextFrame data) fuel offset = none := by
  induction fuel generalizing offset frames with
  | zero => exact iff_of_false Bool.false_ne_true (Option.some_ne_none _)
  | succ fuel ih =>
    rw [frameLoop, after, nextFrame]
    by_cases hcond : offset < data.length ∧ offset + 5 ≤ data.length ∧
        offset + 5 + frameLength data offset ≤ data.length
    · rw [if_pos hcond.1, if_neg (by omega), if_neg (by omega), if_pos hcond, ih]
      rfl
    · rw [if_neg hcond]
      split
      · split
        · exact iff_of_true rfl rfl
        · rw [if_pos (by omega)]
          exact iff_of_true rfl rfl
      · exact iff_of_true rfl rfl

theorem scanLoop_isSome_iff {ρ : Type} {goesOn : Bool} {answer : Nat → Nat → Int × Int → Option ρ}
    {otherwise : ρ} {stops : Nat → Nat → Bool}
    (hstops : ∀ f w v, (answer f w v).isSome = stops f w) (fuel : Nat) (offset : Int) :
    (scanLoop goesOn answer otherwise data fuel offset).isSome ↔
      after (nextField stops goesOn data) fuel offset = none := by
  induction fuel generalizing offset with
  | zero => exact iff_of_false Bool.false_ne_true (Option.some_ne_none _)
  | succ fuel ih =>
    rw [scanLoop, after, nextField]
    split
    · dsimp only
      rw [← hstops _ _ (readVarint data (offset + 1))]
      cases answer _ _ (readVarint data (offset + 1)) with
      | some result => exact iff_of_true rfl rfl
      | none =>
        simp only [Option.isSome_none, Bool.false_eq_true, if_false]
        split
        · exact ih _
        split
        · exact ih _
        split
        · exact ih _
        · exact iff_of_true rfl rfl
    · exact iff_of_true rfl rfl

section Parts

variable {σ : Type} {onVarint : σ → Nat → Int → σ} {onBytes : σ → Nat → Bytes → Option σ}

/-- The strings of bytes that the walk comes to from an offset on. -/
def PartsFrom (data : Bytes) (offset : Int) (Ok : Nat → Bytes → Prop) : Prop :=
  ∀ m place, after (nextPart data) m offset = some place →
    ∀ f b, partAt data place = some (f, b) → Ok f b

theorem fieldLoop_isSome_iff {Ok : Nat → Bytes → Prop}
    (hok : ∀ st f b, (onBytes st f b).isSome ↔ Ok f b) (fuel : Nat) (offset : Int) (st : σ) :
    (fieldLoop onVarint onBytes data fuel offset st).isSome ↔
      after (nextPart data) fuel offset = none ∧ PartsFrom data offset Ok := by
  induction fuel generalizing offset st with
  | zero => exact iff_of_false Bool.false_ne_true fun h => Option.some_ne_none _ h.1
  | succ fuel ih =>
    unfold PartsFrom
    rw [forall_after_iff, fieldLoop, after]
    by_cases hlt : offset < data.length
    · rw [if_pos hlt]
      by_cases hnumber : (byteAt data offset).toNat % 8 = 0
      · have hnext : nextPart data offset = some (readVarint data (offset + 1)).2 := by
          simp [nextPart, nextField, hlt, hnumber]
        have hpart : partAt data offset = none := by simp [partAt, hnumber]
        simp only [hnumber, if_true, ih, hnext, hpart, Option.bind_some, Option.some.injEq,
          forall_eq', reduceCtorEq, false_implies, implies_true, true_and]
        rfl
      · by_cases hbytes : (byteAt data offset).toNat % 8 = 2
        · have hnext : nextPart data offset =
              some ((readVarint data (offset + 1)).2 + (readVarint data (offset + 1)).1) := by
            simp [nextPart, nextField, hlt, hbytes]
          have hpart : partAt data offset = some ((byteAt data offset).toNat / 8,
              sliceOf data (readVarint data (offset + 1)).2
                ((readVarint data (offset + 1)).2 + (readVarint data (offset + 1)).1)) := by
            simp [partAt, hlt, hbytes]
          rw [hnext, hpart]
          dsimp only
          rw [if_neg hnumber, if_pos hbytes]
          simp only [Option.bind_some, Option.some.injEq, forall_eq', Prod.mk.injEq, and_imp,
            forall_apply_eq_imp_iff]
          rw [← hok st]
          cases onBytes st ((byteAt data offset).toNat / 8) _ with
          | none => simp
          | some st' => simpa [PartsFrom] using ih _ st'
        · have hnext : nextPart data offset = none := by
            simp [nextPart, nextField, hnumber, hbytes]
          have hpart : partAt data offset = none := by simp [partAt, hbytes]
          simp [hnumber, hbytes, hnext, hpart]
    · have hnext : nextPart data offset = none := by simp [nextPart, nextField, hlt]
      have hpart : partAt data offset = none := by simp [partAt, hlt]
      simp [hlt, hnext, hpart]

theorem exists_fuel {Ok : Nat → Nat → Bytes → Prop}
    (hmono : ∀ N N' f b, N ≤ N' → Ok N f b → Ok N' f b) (hends : Ends (nextPart data) 0)
    (h : PartsFrom data 0 fun f b => ∃ N, Ok N f b) :
    ∃ N, after (nextPart data) N 0 = none ∧ PartsFrom data 0 (Ok N) := by
  obtain ⟨n, hn⟩ := hends
  have hbound : ∀ k, ∃ N, ∀ m < k, ∀ place, after (nextPart data) m 0 = some place →
      ∀ f b, partAt data place = some (f, b) → Ok N f b := by
    intro k
    induction k with
    | zero => exact ⟨0, fun m hm => absurd hm (Nat.not_lt_zero m)⟩
    | succ k ih =>
      obtain ⟨N, hN⟩ := ih
      obtain ⟨N', hN'⟩ : ∃ N', ∀ place, after (nextPart data) k 0 = some place →
          ∀ f b, partAt data place = some (f, b) → Ok N' f b := by
        by_cases hlast : ∃ place e, after (nextPart data) k 0 = some place ∧ partAt data place = some e
        · obtain ⟨place, ⟨f, b⟩, hplace, hpart⟩ := hlast
          obtain ⟨N', hok⟩ := h k place hplace f b hpart
          refine ⟨N', fun place' hplace' f' b' hpart' => ?_⟩
          obtain rfl := Option.some.inj (hplace.symm.trans hplace')
          obtain ⟨rfl, rfl⟩ := Prod.mk.inj (Option.some.inj (hpart.symm.trans hpart'))
          exact hok
        · exact ⟨0, fun place hplace f b hpart => absurd ⟨place, (f, b), hplace, hpart⟩ hlast⟩
      refine ⟨max N N', fun m hm place hplace f b hpart => ?_⟩
      rcases Nat.lt_succ_iff_lt_or_eq.mp hm with hm | rfl
      · exact hmono _ _ f b (le_max_left N N') (hN m hm place hplace f b hpart)
      · exact hmono _ _ f b (le_max_right N N') (hN' place hplace f b hpart)
  obtain ⟨N, hN⟩ := hbound n
  refine ⟨max N n, after_eq_none_of_le hn (le_max_right N n), fun m place hplace f b hpart => ?_⟩
  have hm : m < n := by
    by_contra hge
    rw [after_eq_none_of_le hn (not_lt.mp hge)] at hplace
    cases hplace
  exact hmono _ _ f b (le_max_left N n) (hN m hm place hplace f b hpart)

end Parts

/-! ## Each reader -/

theorem parseCompactSpend_isSome_iff (fuel : Nat) (data : Bytes) :
    (parseCompactSpend fuel data).isSome ↔ after (nextPart data) fuel 0 = none := by
  have hok : ∀ (st : CompactSpend) f b, (some (spendField st f b)).isSome ↔ True := by simp
  unfold parseCompactSpend
  rw [fieldLoop_isSome_iff hok]
  exact and_iff_left fun _ _ _ _ _ _ => trivial

theorem parseCompactOutput_isSome_iff (fuel : Nat) (data : Bytes) :
    (parseCompactOutput fuel data).isSome ↔ after (nextPart data) fuel 0 = none := by
  have hok : ∀ (st : CompactOutput) f b, (some (outputField st f b)).isSome ↔ True := by simp
  unfold parseCompactOutput
  rw [fieldLoop_isSome_iff hok]
  exact and_iff_left fun _ _ _ _ _ _ => trivial

/-- So many turns are enough for a spend or an output inside a transaction. -/
def TxPartOk (fuel : Nat) (fieldNumber : Nat) (part : Bytes) : Prop :=
  fieldNumber = 4 ∨ fieldNumber = 5 → after (nextPart part) fuel 0 = none

theorem txField_isSome_iff (fuel : Nat) (st : CompactTx) (f : Nat) (b : Bytes) :
    (txField fuel st f b).isSome ↔ TxPartOk fuel f b := by
  have hspend := parseCompactSpend_isSome_iff fuel b
  have houtput := parseCompactOutput_isSome_iff fuel b
  unfold txField TxPartOk
  split
  · next h => simp [h]
  split
  · next h => simp [h, hspend]
  split
  · next h => simp [h, houtput]
  · next hspend houtput => simp [hspend, houtput]

theorem parseCompactTx_isSome_iff (fuel : Nat) (data : Bytes) :
    (parseCompactTx fuel data).isSome ↔
      after (nextPart data) fuel 0 = none ∧ PartsFrom data 0 (TxPartOk fuel) := by
  unfold parseCompactTx
  exact fieldLoop_isSome_iff (txField_isSome_iff fuel) fuel 0 _

theorem TxPartOk.mono {fuel fuel' f : Nat} {b : Bytes} (hle : fuel ≤ fuel') (h : TxPartOk fuel f b) :
    TxPartOk fuel' f b :=
  fun hf => after_eq_none_of_le (h hf) hle

theorem endsOn_of_le {fuel fuel' : Nat} (hle : fuel ≤ fuel') (h : (parseCompactTx fuel data).isSome) :
    (parseCompactTx fuel' data).isSome := by
  rw [parseCompactTx_isSome_iff] at h ⊢
  exact ⟨after_eq_none_of_le h.1 hle, fun m place hplace f b hpart =>
    (h.2 m place hplace f b hpart).mono hle⟩

def BlockPartOk (fuel : Nat) (fieldNumber : Nat) (part : Bytes) : Prop :=
  fieldNumber = 4 → (parseCompactTx fuel part).isSome

theorem blockField_isSome_iff (fuel : Nat) (st : CompactBlock) (f : Nat) (b : Bytes) :
    (blockField fuel st f b).isSome ↔ BlockPartOk fuel f b := by
  unfold blockField BlockPartOk
  split
  · next h => simp [h]
  · next h => simp [h]

theorem ends_nextPart_iff (data : Bytes) : Ends (nextPart data) 0 ↔ ¬ PartsClose data :=
  ends_fields_iff _ _ _

theorem endsOn_spend_iff : EndsOn parseCompactSpend data ↔ ¬ PartsClose data := by
  rw [← ends_nextPart_iff]
  exact exists_congr fun fuel => parseCompactSpend_isSome_iff fuel data

theorem endsOn_output_iff : EndsOn parseCompactOutput data ↔ ¬ PartsClose data := by
  rw [← ends_nextPart_iff]
  exact exists_congr fun fuel => parseCompactOutput_isSome_iff fuel data

theorem endsOn_tx_iff : EndsOn parseCompactTx data ↔ ¬ PartsClose data ∧
    ∀ part, Reaches data 4 part ∨ Reaches data 5 part → ¬ PartsClose part := by
  constructor
  · rintro ⟨fuel, h⟩
    obtain ⟨hends, hparts⟩ := (parseCompactTx_isSome_iff fuel data).mp h
    refine ⟨(ends_nextPart_iff data).mp ⟨fuel, hends⟩, fun part hpart => ?_⟩
    rw [← ends_nextPart_iff]
    rcases hpart with ⟨m, place, hplace, hpart⟩ | ⟨m, place, hplace, hpart⟩
    · exact ⟨fuel, hparts m place hplace 4 part hpart (.inl rfl)⟩
    · exact ⟨fuel, hparts m place hplace 5 part hpart (.inr rfl)⟩
  · rintro ⟨hends, hparts⟩
    have hall : PartsFrom data 0 fun f b => ∃ N, TxPartOk N f b := by
      intro m place hplace f b hpart
      by_cases hf : f = 4 ∨ f = 5
      · have hreach : Reaches data 4 b ∨ Reaches data 5 b := by
          rcases hf with rfl | rfl
          · exact .inl ⟨m, place, hplace, hpart⟩
          · exact .inr ⟨m, place, hplace, hpart⟩
        obtain ⟨N, hN⟩ := (ends_nextPart_iff b).mpr (hparts b hreach)
        exact ⟨N, fun _ => hN⟩
      · exact ⟨0, fun h => absurd h hf⟩
    have hmono : ∀ N N' f b, N ≤ N' → TxPartOk N f b → TxPartOk N' f b :=
      fun N N' f b hle h => h.mono hle
    obtain ⟨N, hN⟩ := exists_fuel hmono ((ends_nextPart_iff data).mpr hends) hall
    exact ⟨N, (parseCompactTx_isSome_iff N data).mpr hN⟩

theorem endsOn_block_iff : EndsOn parseCompactBlock data ↔
    ¬ PartsClose data ∧ ∀ tx, Reaches data 4 tx → EndsOn parseCompactTx tx := by
  have hblock : ∀ fuel, (parseCompactBlock fuel data).isSome ↔
      after (nextPart data) fuel 0 = none ∧ PartsFrom data 0 (BlockPartOk fuel) := by
    intro fuel
    unfold parseCompactBlock
    exact fieldLoop_isSome_iff (blockField_isSome_iff fuel) fuel 0 _
  constructor
  · rintro ⟨fuel, h⟩
    obtain ⟨hends, hparts⟩ := (hblock fuel).mp h
    refine ⟨(ends_nextPart_iff data).mp ⟨fuel, hends⟩, ?_⟩
    rintro tx ⟨m, place, hplace, hpart⟩
    exact ⟨fuel, hparts m place hplace 4 tx hpart rfl⟩
  · rintro ⟨hends, hparts⟩
    have hall : PartsFrom data 0 fun f b => ∃ N, BlockPartOk N f b := by
      intro m place hplace f b hpart
      by_cases hf : f = 4
      · obtain ⟨N, hN⟩ := hparts b ⟨m, place, hplace, hf ▸ hpart⟩
        exact ⟨N, fun _ => hN⟩
      · exact ⟨0, fun h => absurd h hf⟩
    have hmono : ∀ N N' f b, N ≤ N' → BlockPartOk N f b → BlockPartOk N' f b :=
      fun N N' f b hle h hf => endsOn_of_le hle (h hf)
    obtain ⟨N, hN⟩ := exists_fuel hmono ((ends_nextPart_iff data).mpr hends) hall
    exact ⟨N, (hblock N).mpr hN⟩

theorem endsOn_frames_iff : EndsOn decodeGrpcWebFrames data ↔ ¬ Closes (nextFrame data) 0 := by
  rw [← ends_frames_iff]
  exact exists_congr fun fuel => frameLoop_isSome_iff fuel 0 []

theorem isSome_answer {ρ : Type} (field wire : Nat) (result : Int × Int → ρ) (f w : Nat)
    (v : Int × Int) : (if isField field wire f w then some (result v) else none).isSome =
      isField field wire f w := by
  cases isField field wire f w <;> rfl

theorem endsOn_scan_iff {ρ : Type} (goesOn : Bool) (field wire : Nat) (result : Int × Int → ρ)
    (otherwise : ρ) : EndsOn (fun fuel data => scanLoop goesOn
      (fun f w v => if isField field wire f w then some (result v) else none) otherwise data fuel 0)
        data ↔ ¬ Closes (nextField (isField field wire) goesOn data) 0 := by
  rw [← ends_fields_iff]
  exact exists_congr fun fuel => scanLoop_isSome_iff (isSome_answer field wire result) fuel 0

theorem endsOn_treeState_iff (decode : Bytes → String) :
    EndsOn (parseTreeStateSaplingTree decode) data ↔ ¬ Closes (nextField (isField 5 2) false data) 0 :=
  endsOn_scan_iff _ _ _ _ _

theorem endsOn_rawTransaction_iff : EndsOn parseRawTransactionData data ↔
    ¬ Closes (nextField (isField 1 2) false data) 0 :=
  endsOn_scan_iff false 1 2 (fun v => sliceOf data v.2 (v.2 + v.1)) []

theorem endsOn_blockHeight_iff :
    EndsOn readBlockHeight data ↔ ¬ Closes (nextField (isField 1 0) true data) 0 :=
  endsOn_scan_iff true 1 0 Prod.fst 0

theorem endsOn_block_iff_parts : EndsOn parseCompactBlock data ↔
    ¬ PartsClose data ∧ ∀ tx, Reaches data 4 tx → ¬ PartsClose tx ∧
      ∀ part, Reaches tx 4 part ∨ Reaches tx 5 part → ¬ PartsClose part := by
  rw [endsOn_block_iff]
  exact and_congr_right fun _ => forall₂_congr fun _ _ => endsOn_tx_iff

/-- All readers end on the bytes exactly if no chain of lengths leads back. -/
theorem allEnd_iff (decode : Bytes → String) (data : Bytes) :
    AllEnd decode data ↔ NothingCloses data := by
  constructor
  · intro h
    have hblock := endsOn_block_iff_parts.mp h.block
    exact {
      frames := endsOn_frames_iff.mp h.frames
      parts := endsOn_spend_iff.mp h.spend
      inTx := (endsOn_tx_iff.mp h.tx).2
      inBlock := fun tx part htx => (hblock.2 tx htx).2 part
      treeState := (endsOn_treeState_iff decode).mp h.treeState
      rawTransaction := endsOn_rawTransaction_iff.mp h.rawTransaction
      blockHeight := endsOn_blockHeight_iff.mp h.blockHeight }
  · intro h
    have htx : ∀ tx, Reaches data 4 tx → ¬ PartsClose tx := fun tx hreach => h.inTx tx (.inl hreach)
    exact {
      frames := endsOn_frames_iff.mpr h.frames
      block := endsOn_block_iff_parts.mpr
        ⟨h.parts, fun tx hreach => ⟨htx tx hreach, fun part => h.inBlock tx part hreach⟩⟩
      tx := endsOn_tx_iff.mpr ⟨h.parts, h.inTx⟩
      spend := endsOn_spend_iff.mpr h.parts
      output := endsOn_output_iff.mpr h.parts
      treeState := (endsOn_treeState_iff decode).mpr h.treeState
      rawTransaction := endsOn_rawTransaction_iff.mpr h.rawTransaction
      blockHeight := endsOn_blockHeight_iff.mpr h.blockHeight }

/-- A string of bytes whose length is -6 leads back to its own tag, and a frame of length -5 to its
own flag. -/
theorem leads_back : ¬ EndsOn decodeGrpcWebFrames [0, 0xff, 0xff, 0xff, 0xfb] ∧
    let data := [0x12, 0xfa, 0xff, 0xff, 0xff, 0x0f]
    ¬ EndsOn parseCompactBlock data ∧ ¬ EndsOn parseCompactTx data ∧
    ¬ EndsOn parseCompactSpend data ∧ ¬ EndsOn parseCompactOutput data ∧
    (∀ decode, ¬ EndsOn (parseTreeStateSaplingTree decode) data) ∧
    ¬ EndsOn parseRawTransactionData data ∧ ¬ EndsOn readBlockHeight data := by
  have hframe : Closes (nextFrame [0, 0xff, 0xff, 0xff, 0xfb]) 0 := ⟨0, 0, 0, rfl, by decide⟩
  have hback : ∀ stops goesOn, stops 2 2 = false →
      Closes (nextField stops goesOn [0x12, 0xfa, 0xff, 0xff, 0xff, 0x0f]) 0 := by
    intro stops goesOn hstops
    refine ⟨0, 0, 0, rfl, ?_⟩
    have hnext : nextField stops goesOn [0x12, 0xfa, 0xff, 0xff, 0xff, 0x0f] 0 = some 0 :=
      if_neg (show ¬ stops 2 2 = true by simp [hstops])
    rw [after, hnext]
    rfl
  have hparts := hback (fun _ _ => false) false rfl
  exact ⟨fun h => endsOn_frames_iff.mp h hframe, fun h => (endsOn_block_iff.mp h).1 hparts,
    fun h => (endsOn_tx_iff.mp h).1 hparts, fun h => endsOn_spend_iff.mp h hparts,
    fun h => endsOn_output_iff.mp h hparts,
    fun decode h => (endsOn_treeState_iff decode).mp h (hback _ _ rfl),
    fun h => endsOn_rawTransaction_iff.mp h (hback _ _ rfl),
    fun h => endsOn_blockHeight_iff.mp h (hback _ _ rfl)⟩

end Lightwalletd
