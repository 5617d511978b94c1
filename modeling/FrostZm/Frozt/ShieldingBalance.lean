import FrostZm.Frozt.ShieldingTx
import FrostZm.Frozt.TxBalance

/-!
# What a built shielding transaction is worth

Here the sums are checked, but the totals still outlive the lists, and the total of the
Sapling outputs is cast to a signed number.
-/

namespace Sapling

variable {Rng Witness : Type} {lib : SaplingLib Rng Witness}

def inputsValue (inputs : List TransparentInput) : Nat := (inputs.map fun i => i.value.toNat).sum

def outputsValue (outputs : List TransparentOutput) : Nat := (outputs.map fun o => o.value.toNat).sum

variable (lib) in
/-- The value balance is what the Sapling outputs of the state take in, and its inputs exceed
its outputs. -/
def ShieldingBuildState.Conserves (st : ShieldingBuildState) : Prop :=
  ∃ shielded, Worth (OutputParts.Opens lib) st.saplingOutputs shielded ∧
    shielded < 2 ^ 63 ∧ st.valueBalance.toInt = -shielded ∧
    shielded + outputsValue st.transparentOutputs < inputsValue st.inputs

@[simp] theorem inputsValue_concat (inputs : List TransparentInput) (input : TransparentInput) :
    inputsValue (inputs ++ [input]) = inputsValue inputs + input.value.toNat := by
  simp [inputsValue]

@[simp] theorem outputsValue_concat (outputs : List TransparentOutput) (output : TransparentOutput) :
    outputsValue (outputs ++ [output]) = outputsValue outputs + output.value.toNat := by
  simp [outputsValue]

theorem checkedAdd_eq_some {a b c : UInt64} (h : checkedAdd a b = some c) :
    c.toNat = a.toNat + b.toNat := by
  unfold checkedAdd at h
  split at h
  · next hlt =>
    obtain rfl := Option.some.inj h
    rw [UInt64.toNat_add]
    exact Nat.mod_eq_of_lt hlt
  · simp at h

theorem toInt_toInt64 (x : UInt64) :
    x.toInt64.toInt = if x.toNat < 2 ^ 63 then (x.toNat : Int) else x.toNat - 2 ^ 64 := by
  rw [Int64.toInt, UInt64.toBitVec_toInt64, BitVec.toInt_eq_toNat_cond, UInt64.toNat_toBitVec]
  split <;> split <;> omega

theorem toInt_neg_toInt64 {x : UInt64} :
    (-x.toInt64).toInt =
      if x.toNat ≤ 2 ^ 63 then -(x.toNat : Int) else 2 ^ 64 - x.toNat := by
  have hx := x.toNat_lt
  rw [Int64.toInt_neg, toInt_toInt64, Int.bmod]
  split <;> split <;> split <;> omega

namespace ShieldingTxBuilder

/-! ## Calls -/

inductive Call (Rng : Type) where
  | addInput (inputData : Option Bytes)
  | addOutput (address : Option Bytes) (amount : UInt64) (draw : OutputDraw Rng)
  | addTransparentOutput (address : Option Bytes) (amount : UInt64)
  | build (outSighashes outCount : Option Unit)

variable (lib) in
def perform (b : ShieldingTxBuilder) : Call Rng → Result ShieldingTxBuilder
  | .addInput inputData => b.addInput inputData
  | .addOutput address amount draw => b.addOutput lib address amount draw
  | .addTransparentOutput address amount => b.addTransparentOutput lib address amount
  | .build outSighashes outCount => Prod.fst <$> b.build lib outSighashes outCount

variable (lib) in
/-- A call that fails leaves the builder as it was. -/
def step (b : ShieldingTxBuilder) (c : Call Rng) : Option ShieldingTxBuilder :=
  match b.perform lib c with
  | .ok b' => some b'
  | .error _ => some b

variable (lib) in
/-- After every successful call of the run, a state that was built conserves value. -/
def ConservesValue (b₀ : ShieldingTxBuilder) (calls : List (Call Rng)) : Prop :=
  Runs.Guarded (step lib) (fun b c => ∀ b', b.perform lib c = .ok b' →
    ∀ st, b'.finished = some st → st.Conserves lib) b₀ calls

variable (lib) in
/-- If the call is a build that succeeds, the Sapling total is below `2 ^ 63`; and where the
builder has built before, nothing was shielded then, and the inputs since exceed the Sapling
total and the transparent outputs since. -/
def Fits (b : ShieldingTxBuilder) (c : Call Rng) : Prop :=
  ∀ b' outSighashes outCount, b.perform lib c = .ok b' → c = .build outSighashes outCount →
    b.totalSaplingOutput.toNat < 2 ^ 63 ∧
    ∀ st, b.finished = some st → st.valueBalance = 0 ∧
      b.totalSaplingOutput.toNat + outputsValue b.transparentOutputs < inputsValue b.inputs

variable {b b' b₀ : ShieldingTxBuilder} {c : Call Rng} {calls : List (Call Rng)}

/-! ## What a successful call does -/

theorem addInput_ok {inputData : Option Bytes} (h : b.addInput inputData = .ok b') :
    ∃ input totalInput, totalInput.toNat = b.totalInput.toNat + input.value.toNat ∧
      b' = { b with totalInput, inputs := b.inputs ++ [input] } := by
  unfold addInput at h
  obtain ⟨data, -, h⟩ := bind_eq_ok.mp h
  obtain ⟨input, -, h⟩ := bind_eq_ok.mp h
  obtain ⟨totalInput, hsum, h⟩ := bind_eq_ok.mp h
  exact ⟨input, totalInput, checkedAdd_eq_some (okOr_eq_ok.mp hsum), (Except.ok.inj h).symm⟩

theorem addOutput_ok {address : Option Bytes} {amount : UInt64} {draw : OutputDraw Rng}
    (h : b.addOutput lib address amount draw = .ok b') :
    ∃ (output : OutputParts) (totalSaplingOutput : UInt64), output.Opens lib amount.toNat ∧
      totalSaplingOutput.toNat = b.totalSaplingOutput.toNat + amount.toNat ∧
      b' = { b with totalSaplingOutput, saplingOutputs := b.saplingOutputs ++ [output] } := by
  unfold addOutput at h
  obtain ⟨addr, -, h⟩ := bind_eq_ok.mp h
  obtain ⟨_, -, h⟩ := bind_eq_ok.mp h
  obtain ⟨recipient, -, h⟩ := bind_eq_ok.mp h
  obtain ⟨_, -, h⟩ := bind_eq_ok.mp h
  obtain ⟨output, houtput, h⟩ := bind_eq_ok.mp h
  obtain ⟨total, hsum, h⟩ := bind_eq_ok.mp h
  exact ⟨output, total, opens_of_makeOutput houtput, checkedAdd_eq_some (okOr_eq_ok.mp hsum),
    (Except.ok.inj h).symm⟩

theorem addTransparentOutput_ok {address : Option Bytes} {amount : UInt64}
    (h : b.addTransparentOutput lib address amount = .ok b') :
    ∃ (output : TransparentOutput) (totalTransparentOutput : UInt64),
      totalTransparentOutput.toNat = b.totalTransparentOutput.toNat + output.value.toNat ∧
      b' = { b with
        totalTransparentOutput
        transparentOutputs := b.transparentOutputs ++ [output] } := by
  unfold addTransparentOutput at h
  obtain ⟨addr, -, h⟩ := bind_eq_ok.mp h
  obtain ⟨_, -, h⟩ := bind_eq_ok.mp h
  obtain ⟨pubkeyHash, -, h⟩ := bind_eq_ok.mp h
  obtain ⟨total, hsum, h⟩ := bind_eq_ok.mp h
  exact ⟨⟨amount, _⟩, total, checkedAdd_eq_some (okOr_eq_ok.mp hsum), (Except.ok.inj h).symm⟩

theorem build_ok {outSighashes outCount : Option Unit} {out : Bytes × UInt32}
    (h : b.build lib outSighashes outCount = .ok (b', out)) :
    b.totalSaplingOutput.toNat + b.totalTransparentOutput.toNat < b.totalInput.toNat ∧
      ∃ st : ShieldingBuildState, st.inputs = b.inputs ∧
        st.transparentOutputs = b.transparentOutputs ∧ st.saplingOutputs = b.saplingOutputs ∧
        st.valueBalance = -b.totalSaplingOutput.toInt64 ∧
        b' = { b with
          inputs := []
          transparentOutputs := []
          saplingOutputs := []
          finished := some st } := by
  unfold build at h
  obtain ⟨_, -, h⟩ := bind_eq_ok.mp h
  obtain ⟨_, -, h⟩ := bind_eq_ok.mp h
  obtain ⟨_, -, h⟩ := bind_eq_ok.mp h
  obtain ⟨totalOut, hsum, h⟩ := bind_eq_ok.mp h
  obtain ⟨_, hlt, h⟩ := bind_eq_ok.mp h
  rw [failIf_eq_ok, UInt64.not_le, UInt64.lt_iff_toNat_lt,
    checkedAdd_eq_some (okOr_eq_ok.mp hsum)] at hlt
  exact ⟨hlt, _, rfl, rfl, rfl, rfl, (Prod.mk.inj (Except.ok.inj h)).1.symm⟩

/-! ## One call -/

variable (lib) in
/-- The totals beside the lists, with what the lists held that were taken out. -/
structure Booked (b : ShieldingTxBuilder) (takenIn takenShielded takenOut : Nat) : Prop where
  input : b.totalInput.toNat = takenIn + inputsValue b.inputs
  shielded : Tally (OutputParts.Opens lib) b.totalSaplingOutput.toNat takenShielded b.saplingOutputs
  output : b.totalTransparentOutput.toNat = takenOut + outputsValue b.transparentOutputs
  new : b.finished = none → takenIn = 0 ∧ takenShielded = 0 ∧ takenOut = 0
  built : ∀ st, b.finished = some st → st.valueBalance.toInt = -takenShielded

variable (lib) in
structure Sound (b : ShieldingTxBuilder) : Prop where
  booked : ∃ takenIn takenShielded takenOut, b.Booked lib takenIn takenShielded takenOut
  conserves : ∀ st, b.finished = some st → st.Conserves lib

theorem sound_new {pkp extras : Option Bytes} {targetHeight : UInt32}
    (h : new pkp extras targetHeight = .ok b) : b.Sound lib := by
  unfold new at h
  obtain ⟨_, -, h⟩ := bind_eq_ok.mp h
  obtain ⟨_, -, h⟩ := bind_eq_ok.mp h
  obtain ⟨_, -, h⟩ := bind_eq_ok.mp h
  obtain rfl := Except.ok.inj h
  exact ⟨⟨0, 0, 0, rfl, Tally.nil, rfl, fun _ => ⟨rfl, rfl, rfl⟩, by simp⟩, by simp⟩

theorem Sound.perform (hs : b.Sound lib) (hfits : b.Fits lib c) (h : b.perform lib c = .ok b') :
    b'.Sound lib := by
  obtain ⟨⟨takenIn, takenShielded, takenOut, hbook⟩, hcons⟩ := hs
  cases c with
  | addInput inputData =>
    obtain ⟨input, total, hsum, rfl⟩ := addInput_ok h
    refine ⟨⟨takenIn, takenShielded, takenOut, ?_, hbook.shielded, hbook.output, hbook.new,
      hbook.built⟩, hcons⟩
    have hin := hbook.input
    simp only [inputsValue_concat]
    omega
  | addOutput address amount draw =>
    obtain ⟨output, total, hopens, hsum, rfl⟩ := addOutput_ok h
    refine ⟨⟨takenIn, takenShielded, takenOut, hbook.input, ?_, hbook.output, hbook.new,
      hbook.built⟩, hcons⟩
    rw [hsum]
    exact hbook.shielded.concat hopens
  | addTransparentOutput address amount =>
    obtain ⟨output, total, hsum, rfl⟩ := addTransparentOutput_ok h
    refine ⟨⟨takenIn, takenShielded, takenOut, hbook.input, hbook.shielded, ?_, hbook.new,
      hbook.built⟩, hcons⟩
    have hout := hbook.output
    simp only [outputsValue_concat]
    omega
  | build outSighashes outCount =>
    obtain ⟨⟨b₁, out⟩, hcall, rfl⟩ := map_eq_ok.mp h
    obtain ⟨hlt, st, hinputs, houtputs, hshielded, hvb, rfl⟩ := build_ok hcall
    obtain ⟨hsmall, hleft⟩ := hfits _ _ _ h rfl
    obtain ⟨shielded, hworth, htotal⟩ := hbook.shielded
    have hin := hbook.input
    have hout := hbook.output
    have hneg : st.valueBalance.toInt = -(b.totalSaplingOutput.toNat : Int) := by
      rw [hvb, toInt_neg_toInt64, if_pos (Nat.le_of_lt hsmall)]
    -- earlier builds shielded nothing, and the transparent values of this state suffice for it
    have hnow : takenShielded = 0 ∧
        shielded + outputsValue b.transparentOutputs < inputsValue b.inputs := by
      cases hfin : b.finished with
      | none =>
        obtain ⟨rfl, rfl, rfl⟩ := hbook.new hfin
        omega
      | some st₀ =>
        have h₀ := hbook.built st₀ hfin
        obtain ⟨hzero, hlt'⟩ := hleft st₀ hfin
        rw [hzero, Int64.toInt_zero] at h₀
        omega
    refine ⟨⟨b.totalInput.toNat, b.totalSaplingOutput.toNat, b.totalTransparentOutput.toNat, rfl,
      Tally.nil, rfl, by simp, ?_⟩, ?_⟩
    · rintro st' ⟨⟩
      exact hneg
    · rintro st' ⟨⟩
      refine ⟨shielded, hshielded ▸ hworth, ?_, ?_, ?_⟩
      · omega
      · omega
      · rw [houtputs, hinputs]
        exact hnow.2

theorem Sound.fits (doc : lib.Documented) (hs : b.Sound lib)
    (hcons : ∀ b', b.perform lib c = .ok b' → ∀ st, b'.finished = some st → st.Conserves lib) :
    b.Fits lib c := by
  rintro b' outSighashes outCount h rfl
  obtain ⟨⟨takenIn, takenShielded, takenOut, hbook⟩, -⟩ := hs
  have hcons := hcons b' h
  obtain ⟨⟨b₁, out⟩, hcall, rfl⟩ := map_eq_ok.mp h
  obtain ⟨-, st, hinputs, houtputs, hshielded, hvb, rfl⟩ := build_ok hcall
  obtain ⟨shielded, hworth, hsmall, heq, hlt⟩ := hcons st rfl
  obtain ⟨shielded', hworth', htotal⟩ := hbook.shielded
  rw [hshielded] at hworth
  obtain rfl := hworth.unique (OutputParts.opens_rightUnique doc) hworth'
  rw [houtputs, hinputs] at hlt
  -- a cast that wraps would give another value balance
  have htotal' : b.totalSaplingOutput.toNat = shielded := by
    have hmax := b.totalSaplingOutput.toNat_lt
    rw [hvb, toInt_neg_toInt64] at heq
    split at heq <;> omega
  refine ⟨htotal' ▸ hsmall, fun st₀ hfin => ⟨?_, htotal' ▸ hlt⟩⟩
  have h₀ := hbook.built st₀ hfin
  apply Int64.toInt.inj
  rw [Int64.toInt_zero]
  omega

/-! ## Whole runs -/

theorem sound_step (doc : lib.Documented) {s : ShieldingTxBuilder} (hs : b.Sound lib)
    (hcons : ∀ b', b.perform lib c = .ok b' → ∀ st, b'.finished = some st → st.Conserves lib)
    (h : b.step lib c = some s) : s.Sound lib := by
  unfold step at h
  split at h
  · next b' hb' =>
    obtain rfl := Option.some.inj h
    exact hs.perform (hs.fits doc hcons) hb'
  · obtain rfl := Option.some.inj h
    exact hs

/-- A new builder conserves value as long as every build fits, and no longer. -/
theorem shielding_conservesValue_iff (doc : lib.Documented) {pkp extras : Option Bytes}
    {targetHeight : UInt32} (hnew : new pkp extras targetHeight = .ok b₀)
    (calls : List (Call Rng)) :
    ConservesValue lib b₀ calls ↔ Runs.Guarded (step lib) (Fits lib) b₀ calls := by
  apply Runs.guarded_congr (Sound lib) (sound_new hnew)
  · intro b c s hs hcons h
    exact sound_step doc hs hcons h
  · intro b c hs
    exact ⟨hs.fits doc, fun hfits b' h => (hs.perform hfits h).conserves⟩

section Samples

open Reference

/-- A new builder, at a height where ZIP 212 is enforced. -/
def sampleBuilder : ShieldingTxBuilder where
  ovk := List.replicate 32 0
  targetHeight := 2000000
  zip212 := .on
  inputs := []
  transparentOutputs := []
  saplingOutputs := []
  totalInput := 0
  totalSaplingOutput := 0
  totalTransparentOutput := 0
  finished := none

theorem new_sampleBuilder :
    new (some []) (some (List.replicate 96 0)) 2000000 = .ok sampleBuilder := rfl

/-- The call that adds an input of this value. -/
def inputOf (value : UInt64) : Call Unit :=
  .addInput (some (List.replicate 36 0 ++ u64ToLeBytes value ++ [0, 0]))

def outputOf (amount : UInt64) : Call Unit := .addOutput (some []) amount ⟨[], [], ()⟩

theorem shielding_built_once :
    ConservesValue sapling sampleBuilder
      [inputOf 5000, outputOf 1000, .build (some ()) (some ())] := by
  refine (shielding_conservesValue_iff sapling_documented new_sampleBuilder _).mpr ?_
  refine Runs.guarded_cons.mpr ⟨by rintro _ _ _ - ⟨⟩, ?_⟩
  rintro u ⟨⟩
  refine Runs.guarded_cons.mpr ⟨by rintro _ _ _ - ⟨⟩, ?_⟩
  rintro u ⟨⟩
  refine Runs.guarded_cons.mpr ⟨?_, fun _ _ => Runs.guarded_nil⟩
  rintro _ _ _ - -
  exact ⟨by decide, by rintro st ⟨⟩⟩

/-- The second build again pays out the 1000 that the first one shielded. -/
theorem not_shielding_built_twice :
    ¬ ConservesValue sapling sampleBuilder
      [inputOf 5000, outputOf 1000, .build (some ()) (some ()), inputOf 3000, outputOf 500,
        .build (some ()) (some ())] := by
  intro h
  obtain ⟨b, b', st, hr, hb', hfin, hvb, houtputs⟩ : ∃ b b' st,
      Runs.run (step sapling) sampleBuilder
        [inputOf 5000, outputOf 1000, .build (some ()) (some ()), inputOf 3000, outputOf 500] =
          some b ∧
      b.perform sapling (.build (some ()) (some ())) = .ok b' ∧ b'.finished = some st ∧
      st.valueBalance = -1500 ∧ Worth (OutputParts.Opens sapling) st.saplingOutputs 500 := by
    refine ⟨_, _, _, rfl, rfl, rfl, by decide, ?_⟩
    exact ⟨[500], .cons ⟨500, rfl, rfl⟩ .nil, rfl⟩
  obtain ⟨shielded, hworth, -, heq, -⟩ := h _ _ (List.prefix_refl _) b hr b' hb' st hfin
  obtain rfl := hworth.unique (OutputParts.opens_rightUnique sapling_documented) houtputs
  rw [hvb] at heq
  revert heq
  decide

end Samples

end ShieldingTxBuilder

end Sapling
