import FrostZm.Frozt.ReferenceSapling
import FrostZm.Lib.Runs
import FrostZm.Lib.Worth

/-!
# What a built transaction is worth

The calls on one builder, successful or not, as steps of a run. The totals of the builder
outlive the lists that `build` takes out, and their sums wrap.
-/

namespace Sapling

variable {Rng Witness : Type} (lib : SaplingLib Rng Witness)

/-! ## Values -/

/-- The value in a spend's commitment. -/
def SpendParts.Opens (spend : SpendParts) (n : Nat) : Prop :=
  ∃ v : UInt64, spend.cv = lib.valueCommitment v spend.rcv ∧ n = v.toNat

def OutputParts.Opens (output : OutputParts) (n : Nat) : Prop :=
  ∃ v : UInt64, output.cv = lib.valueCommitment v output.rcv ∧ n = v.toNat

/-- The value balance is what the spends of the state are worth less what its outputs are, and
it is a fee within bounds. -/
def TxBuildState.Conserves (st : TxBuildState) : Prop :=
  ∃ ins outs, Worth (SpendParts.Opens lib) st.spends ins ∧
    Worth (OutputParts.Opens lib) st.outputs outs ∧
    st.valueBalance.toInt = ins - outs ∧
    0 ≤ st.valueBalance.toInt ∧ st.valueBalance.toInt ≤ maxFeeZatoshis.toNat

variable {lib}

theorem SpendParts.opens_rightUnique (doc : lib.Documented) :
    Relator.RightUnique (SpendParts.Opens lib) := by
  rintro spend n m ⟨v, hv, rfl⟩ ⟨w, hw, rfl⟩
  rw [doc.valueCommitment_injective v w spend.rcv (hv.symm.trans hw)]

theorem OutputParts.opens_rightUnique (doc : lib.Documented) :
    Relator.RightUnique (OutputParts.Opens lib) := by
  rintro output n m ⟨v, hv, rfl⟩ ⟨w, hw, rfl⟩
  rw [doc.valueCommitment_injective v w output.rcv (hv.symm.trans hw)]

theorem opens_of_makeSpend {pgk : ProofGenerationKey} {fvk : FullViewingKey} {note : Note}
    {merklePath : MerklePath} {draw : SpendDraw Rng} {spend : SpendParts}
    (h : makeSpend lib pgk fvk note merklePath draw = .ok spend) :
    spend.Opens lib note.value.toNat := by
  unfold makeSpend at h
  obtain ⟨anchor, -, h⟩ := bind_eq_ok.mp h
  obtain ⟨zkproof, -, h⟩ := bind_eq_ok.mp h
  obtain rfl := Except.ok.inj h
  exact ⟨note.value, rfl, rfl⟩

theorem opens_of_makeOutput {ovk : Option Bytes} {recipient : Bytes} {value : UInt64}
    {memo : Bytes} {zip212 : Zip212Enforcement} {draw : OutputDraw Rng} {output : OutputParts}
    (h : makeOutput lib ovk recipient value memo zip212 draw = .ok output) :
    output.Opens lib value.toNat := by
  unfold makeOutput at h
  obtain rfl := Except.ok.inj h
  exact ⟨value, rfl, rfl⟩

/-! ## Calls -/

namespace TxBuilder

inductive Call (Rng : Type) where
  | addSpend (noteData witnessData : Option Bytes) (outAlpha : Option Unit) (draw : SpendDraw Rng)
  | addOutput (address : Option Bytes) (amount : UInt64) (draw : OutputDraw Rng)
  | build (outSighash : Option Unit)

/-- The value of the note that a call spends. -/
def Call.spendValue : Call Rng → Nat
  | .addSpend (some noteData) _ _ _ => (u64FromLeBytes (slice noteData 11 8)).toNat
  | _ => 0

def Call.outputValue : Call Rng → Nat
  | .addOutput _ amount _ => amount.toNat
  | _ => 0

variable (lib) in
def perform (b : TxBuilder) : Call Rng → Result TxBuilder
  | .addSpend noteData witnessData outAlpha draw =>
    Prod.fst <$> b.addSpend lib noteData witnessData outAlpha draw
  | .addOutput address amount draw => b.addOutput lib address amount draw
  | .build outSighash => Prod.fst <$> b.build lib outSighash

variable (lib) in
/-- A call that fails leaves the builder as it was. -/
def step (b : TxBuilder) (c : Call Rng) : Option TxBuilder :=
  match b.perform lib c with
  | .ok b' => some b'
  | .error _ => some b

/-- Neither sum wraps, and a state that is built conserves value. -/
structure Exact (lib : SaplingLib Rng Witness) (b : TxBuilder) (c : Call Rng) (b' : TxBuilder) :
    Prop where
  input : b'.totalInput.toNat = b.totalInput.toNat + c.spendValue
  output : b'.totalOutput.toNat = b.totalOutput.toNat + c.outputValue
  conserves : ∀ st, b'.finished = some st → st.Conserves lib

variable (lib) in
/-- Every successful call of the run is exact. -/
def ConservesValue (b₀ : TxBuilder) (calls : List (Call Rng)) : Prop :=
  Runs.Guarded (step lib) (fun b c => ∀ b', b.perform lib c = .ok b' → Exact lib b c b') b₀ calls

/-- If the call succeeds, the sums fit, and a builder that has built before left no fee then. -/
structure Fits (lib : SaplingLib Rng Witness) (b : TxBuilder) (c : Call Rng) : Prop where
  input : ∀ b', b.perform lib c = .ok b' → b.totalInput.toNat + c.spendValue < 2 ^ 64
  output : ∀ b', b.perform lib c = .ok b' → b.totalOutput.toNat + c.outputValue < 2 ^ 64
  left : ∀ b' out, b.perform lib c = .ok b' → c = .build out →
    ∀ st, b.finished = some st → st.valueBalance = 0

variable {b b' b₀ : TxBuilder} {c : Call Rng} {calls : List (Call Rng)}

/-! ## What a successful call does -/

theorem noteOf_value {noteData : Bytes} {note : Note} (h : b.noteOf lib noteData = .ok note) :
    note.value = u64FromLeBytes (slice noteData 11 8) := by
  unfold noteOf at h
  obtain ⟨rseed, -, h⟩ := bind_eq_ok.mp h
  obtain ⟨recipient, -, h⟩ := bind_eq_ok.mp h
  obtain rfl := Except.ok.inj h
  rfl

theorem addSpend_ok {noteData witnessData : Option Bytes} {outAlpha : Option Unit}
    {draw : SpendDraw Rng} {alpha : Bytes}
    (h : b.addSpend lib noteData witnessData outAlpha draw = .ok (b', alpha)) :
    ∃ data spend, noteData = some data ∧
      spend.Opens lib (u64FromLeBytes (slice data 11 8)).toNat ∧
      b' = { b with
        totalInput := b.totalInput + u64FromLeBytes (slice data 11 8)
        spends := b.spends ++ [spend]
        alphas := b.alphas ++ [draw.alpha] } := by
  unfold addSpend at h
  obtain ⟨data, hdata, h⟩ := bind_eq_ok.mp h
  obtain ⟨_, -, h⟩ := bind_eq_ok.mp h
  obtain ⟨_, -, h⟩ := bind_eq_ok.mp h
  obtain ⟨_, -, h⟩ := bind_eq_ok.mp h
  obtain ⟨note, hnote, h⟩ := bind_eq_ok.mp h
  obtain ⟨_, -, h⟩ := bind_eq_ok.mp h
  obtain ⟨_, -, h⟩ := bind_eq_ok.mp h
  obtain ⟨_, -, h⟩ := bind_eq_ok.mp h
  obtain ⟨spend, hspend, h⟩ := bind_eq_ok.mp h
  have hvalue := noteOf_value hnote
  refine ⟨data, spend, okOr_eq_ok.mp hdata, ?_, ?_⟩
  · rw [← hvalue]
    exact opens_of_makeSpend hspend
  · rw [← hvalue]
    exact (Prod.mk.inj (Except.ok.inj h)).1.symm

theorem addOutput_ok {address : Option Bytes} {amount : UInt64} {draw : OutputDraw Rng}
    (h : b.addOutput lib address amount draw = .ok b') :
    ∃ output : OutputParts, output.Opens lib amount.toNat ∧
      b' = { b with
        totalOutput := b.totalOutput + amount
        outputs := b.outputs ++ [output] } := by
  unfold addOutput at h
  obtain ⟨addr, -, h⟩ := bind_eq_ok.mp h
  obtain ⟨_, -, h⟩ := bind_eq_ok.mp h
  obtain ⟨recipient, -, h⟩ := bind_eq_ok.mp h
  obtain ⟨_, -, h⟩ := bind_eq_ok.mp h
  obtain ⟨output, houtput, h⟩ := bind_eq_ok.mp h
  exact ⟨output, opens_of_makeOutput houtput, (Except.ok.inj h).symm⟩

theorem build_ok {outSighash : Option Unit} {sighash : Bytes}
    (h : b.build lib outSighash = .ok (b', sighash)) :
    b.totalOutput ≤ b.totalInput ∧ b.totalInput - b.totalOutput ≤ maxFeeZatoshis ∧
      ∃ st : TxBuildState, st.spends = b.spends ∧ st.outputs = b.outputs ∧
        st.valueBalance = (b.totalInput - b.totalOutput).toInt64 ∧
        b' = { b with spends := [], outputs := [], finished := some st } := by
  unfold build at h
  obtain ⟨_, -, h⟩ := bind_eq_ok.mp h
  obtain ⟨_, -, h⟩ := bind_eq_ok.mp h
  obtain ⟨_, hout, h⟩ := bind_eq_ok.mp h
  obtain ⟨_, hfee, h⟩ := bind_eq_ok.mp h
  rw [failIf_eq_ok, gt_iff_lt, UInt64.not_lt] at hout hfee
  exact ⟨hout, hfee, _, rfl, rfl, rfl, (Prod.mk.inj (Except.ok.inj h)).1.symm⟩

/-! ## One call -/

variable (lib) in
/-- The totals beside the lists, with what the lists held that were taken out. -/
structure Booked (b : TxBuilder) (takenIn takenOut : Nat) : Prop where
  input : Tally (SpendParts.Opens lib) b.totalInput.toNat takenIn b.spends
  output : Tally (OutputParts.Opens lib) b.totalOutput.toNat takenOut b.outputs
  new : b.finished = none → takenIn = takenOut
  built : ∀ st, b.finished = some st → (takenIn : Int) = takenOut + st.valueBalance.toInt

variable (lib) in
structure Sound (b : TxBuilder) : Prop where
  booked : ∃ takenIn takenOut, b.Booked lib takenIn takenOut
  conserves : ∀ st, b.finished = some st → st.Conserves lib

theorem sound_new (fvk : FullViewingKey) (nsk : Bytes) (targetHeight : UInt32) :
    (new fvk nsk targetHeight).Sound lib where
  booked := ⟨0, 0, Tally.nil, Tally.nil, fun _ => rfl, by simp [new]⟩
  conserves := by simp [new]

theorem toInt_fee {fee : UInt64} (h : fee ≤ maxFeeZatoshis) : fee.toInt64.toInt = fee.toNat := by
  have hfee : fee.toNat ≤ 1000000 := UInt64.le_iff_toNat_le.mp h
  rw [Int64.toInt, UInt64.toBitVec_toInt64, BitVec.toInt_eq_toNat_of_lt]
  · rfl
  · rw [UInt64.toNat_toBitVec]
    omega

/-- The fee of a build is what the lists are worth, and what was left by earlier builds. -/
theorem Booked.valueBalance {takenIn takenOut ins outs : Nat} {fee : Int64}
    (hbook : b.Booked lib takenIn takenOut) (doc : lib.Documented)
    (hout : b.totalOutput ≤ b.totalInput) (hfee : b.totalInput - b.totalOutput ≤ maxFeeZatoshis)
    (hvb : fee = (b.totalInput - b.totalOutput).toInt64)
    (hins : Worth (SpendParts.Opens lib) b.spends ins)
    (houts : Worth (OutputParts.Opens lib) b.outputs outs) :
    fee.toInt = takenIn - takenOut + (ins - outs) := by
  obtain ⟨ins', hins', hin⟩ := hbook.input
  obtain ⟨outs', houts', hout'⟩ := hbook.output
  obtain rfl := hins.unique (SpendParts.opens_rightUnique doc) hins'
  obtain rfl := houts.unique (OutputParts.opens_rightUnique doc) houts'
  have hle : b.totalOutput.toNat ≤ b.totalInput.toNat := UInt64.le_iff_toNat_le.mp hout
  rw [hvb, toInt_fee hfee, UInt64.toNat_sub_of_le _ _ hout]
  omega

theorem Sound.perform (doc : lib.Documented) (hs : b.Sound lib) (hfits : b.Fits lib c)
    (h : b.perform lib c = .ok b') : b'.Sound lib ∧ Exact lib b c b' := by
  obtain ⟨⟨takenIn, takenOut, hbook⟩, hcons⟩ := hs
  have hin := hfits.input b' h
  have hout := hfits.output b' h
  cases c with
  | addSpend noteData witnessData outAlpha draw =>
    obtain ⟨⟨b₁, alpha⟩, hcall, rfl⟩ := map_eq_ok.mp h
    obtain ⟨data, spend, rfl, hopens, rfl⟩ := addSpend_ok hcall
    have hsum : (b.totalInput + u64FromLeBytes (slice data 11 8)).toNat =
        b.totalInput.toNat + (u64FromLeBytes (slice data 11 8)).toNat := by
      rw [UInt64.toNat_add]
      exact Nat.mod_eq_of_lt hin
    refine ⟨⟨⟨takenIn, takenOut, ?_, hbook.output, hbook.new, hbook.built⟩, hcons⟩, hsum, rfl, hcons⟩
    rw [hsum]
    exact hbook.input.concat hopens
  | addOutput address amount draw =>
    obtain ⟨output, hopens, rfl⟩ := addOutput_ok h
    have hsum : (b.totalOutput + amount).toNat = b.totalOutput.toNat + amount.toNat := by
      rw [UInt64.toNat_add]
      exact Nat.mod_eq_of_lt hout
    refine ⟨⟨⟨takenIn, takenOut, hbook.input, ?_, hbook.new, hbook.built⟩, hcons⟩, rfl, hsum, hcons⟩
    rw [hsum]
    exact hbook.output.concat hopens
  | build outSighash =>
    obtain ⟨⟨b₁, sighash⟩, hcall, rfl⟩ := map_eq_ok.mp h
    obtain ⟨hle, hfee, st, hspends, houtputs, hvb, rfl⟩ := build_ok hcall
    obtain ⟨ins, hins, hti⟩ := hbook.input
    obtain ⟨outs, houts, hto⟩ := hbook.output
    have hbal := hbook.valueBalance doc hle hfee hvb hins houts
    have hnat : st.valueBalance.toInt = (b.totalInput - b.totalOutput).toNat := by
      rw [hvb, toInt_fee hfee]
    -- earlier builds left nothing
    have htaken : takenIn = takenOut := by
      cases hfin : b.finished with
      | none => exact hbook.new hfin
      | some st₀ =>
        have h₀ := hbook.built st₀ hfin
        rw [hfits.left _ _ h rfl st₀ hfin, Int64.toInt_zero] at h₀
        omega
    have hnew : ∀ st', some st = some st' → st'.Conserves lib := by
      rintro st' ⟨⟩
      have hmax : (b.totalInput - b.totalOutput).toNat ≤ maxFeeZatoshis.toNat :=
        UInt64.le_iff_toNat_le.mp hfee
      refine ⟨ins, outs, hspends ▸ hins, houtputs ▸ houts, ?_, ?_, ?_⟩ <;> omega
    refine ⟨⟨⟨b.totalInput.toNat, b.totalOutput.toNat, Tally.nil, Tally.nil, by simp, ?_⟩, hnew⟩,
      rfl, rfl, hnew⟩
    rintro st' ⟨⟩
    omega

theorem Sound.fits (doc : lib.Documented) (hs : b.Sound lib)
    (hexact : ∀ b', b.perform lib c = .ok b' → Exact lib b c b') : b.Fits lib c where
  input b' h := (hexact b' h).input ▸ b'.totalInput.toNat_lt
  output b' h := (hexact b' h).output ▸ b'.totalOutput.toNat_lt
  left := by
    rintro b' out h rfl st₀ hfin
    obtain ⟨⟨takenIn, takenOut, hbook⟩, -⟩ := hs
    have hcons := (hexact b' h).conserves
    obtain ⟨⟨b₁, sighash⟩, hcall, rfl⟩ := map_eq_ok.mp h
    obtain ⟨hle, hfee, st, hspends, houtputs, hvb, rfl⟩ := build_ok hcall
    obtain ⟨ins, outs, hins, houts, heq, -⟩ := hcons st rfl
    rw [hspends] at hins
    rw [houtputs] at houts
    have hbal := hbook.valueBalance doc hle hfee hvb hins houts
    have h₀ := hbook.built st₀ hfin
    apply Int64.toInt.inj
    rw [Int64.toInt_zero]
    omega

/-! ## Whole runs -/

theorem sound_step (doc : lib.Documented) {s : TxBuilder} (hs : b.Sound lib)
    (hexact : ∀ b', b.perform lib c = .ok b' → Exact lib b c b') (h : b.step lib c = some s) :
    s.Sound lib := by
  unfold step at h
  split at h
  · next b' hb' =>
    obtain rfl := Option.some.inj h
    exact (hs.perform doc (hs.fits doc hexact) hb').1
  · obtain rfl := Option.some.inj h
    exact hs

/-- Every successful call on a new builder is exact, as long as every sum fits and no build
follows one that left a fee, and no longer. -/
theorem conservesValue_iff (doc : lib.Documented) (fvk : FullViewingKey) (nsk : Bytes)
    (targetHeight : UInt32) (calls : List (Call Rng)) :
    ConservesValue lib (new fvk nsk targetHeight) calls ↔
      Runs.Guarded (step lib) (Fits lib) (new fvk nsk targetHeight) calls := by
  apply Runs.guarded_congr (Sound lib) (sound_new fvk nsk targetHeight)
  · intro b c s hs hexact h
    exact sound_step doc hs hexact h
  · intro b c hs
    exact ⟨hs.fits doc, fun hfits b' h => (hs.perform doc hfits h).2⟩

section Samples

open Reference

/-- A new builder, at a height where ZIP 212 is enforced. -/
def sampleBuilder : TxBuilder := new ⟨[], [], []⟩ [] 2000000

/-- The call that spends a note of this value. -/
def spendOf (value : UInt64) : Call Unit :=
  .addSpend (some (List.replicate 11 0 ++ u64ToLeBytes value ++ List.replicate 32 0)) (some [])
    (some ()) ⟨[], [], ()⟩

theorem conservesValue_built_once :
    ConservesValue sapling sampleBuilder [spendOf 1000, .build (some ())] := by
  refine (conservesValue_iff sapling_documented ⟨[], [], []⟩ [] 2000000 _).mpr ?_
  refine Runs.guarded_cons.mpr ⟨⟨fun _ _ => by decide, fun _ _ => by decide, ?_⟩, ?_⟩
  · rintro _ _ - ⟨⟩
  · rintro u ⟨⟩
    refine Runs.guarded_cons.mpr ⟨⟨fun _ _ => by decide, fun _ _ => by decide, ?_⟩,
      fun _ _ => Runs.guarded_nil⟩
    rintro _ _ - - st ⟨⟩

/-- The second build again pays the 1000 that the first one paid. -/
theorem not_conservesValue_built_twice :
    ¬ ConservesValue sapling sampleBuilder
      [spendOf 1000, .build (some ()), spendOf 500, .build (some ())] := by
  intro h
  obtain ⟨b, b', st, hr, hb', hfin, hvb, hspends, houtputs⟩ : ∃ b b' st,
      Runs.run (step sapling) sampleBuilder
        [spendOf 1000, .build (some ()), spendOf 500] = some b ∧
      b.perform sapling (.build (some ())) = .ok b' ∧ b'.finished = some st ∧
      st.valueBalance = 1500 ∧ Worth (SpendParts.Opens sapling) st.spends 500 ∧
      st.outputs = [] := by
    refine ⟨_, _, _, rfl, rfl, rfl, by decide, ?_, rfl⟩
    exact ⟨[500], .cons ⟨500, rfl, rfl⟩ .nil, rfl⟩
  obtain ⟨ins, outs, hins, houts, heq, -⟩ :=
    (h _ _ (List.prefix_refl _) b hr b' hb').conserves st hfin
  obtain rfl := hins.unique (SpendParts.opens_rightUnique sapling_documented) hspends
  rw [houtputs, Worth.nil_iff] at houts
  rw [hvb, houts] at heq
  revert heq
  decide

end Samples

end TxBuilder

end Sapling
