import FrostZm.Client.NoteSelection
import FrostZm.Client.Prepare
import FrostZm.Frozt.TxBalance

/-!
# The fee of a spend

The client takes five thousand zatoshis for each note beyond the second, and the builder refuses
to pay more than a million.
-/

open Sapling Selection SpentMarks.Frozt

theorem Sapling.TxBuilder.build_isOk_iff {Rng W : Type} {lib : SaplingLib Rng W} (b : TxBuilder) :
    (∃ r, b.build lib (some ()) = .ok r) ↔ b.spends ≠ [] ∧ b.totalOutput ≤ b.totalInput ∧
      b.totalInput - b.totalOutput ≤ maxFeeZatoshis := by
  unfold TxBuilder.build
  constructor
  · rintro ⟨r, h⟩
    obtain ⟨_, -, h⟩ := bind_eq_ok.mp h
    obtain ⟨_, hspends, h⟩ := bind_eq_ok.mp h
    obtain ⟨_, hout, h⟩ := bind_eq_ok.mp h
    obtain ⟨_, hfee, -⟩ := bind_eq_ok.mp h
    rw [failIf_eq_ok] at hspends hout hfee
    rw [gt_iff_lt, UInt64.not_lt] at hout hfee
    exact ⟨by simpa using hspends, hout, hfee⟩
  · rintro ⟨hspends, hout, hfee⟩
    rw [← UInt64.not_lt, ← gt_iff_lt] at hout hfee
    refine ⟨_, bind_eq_ok.mpr ⟨(), rfl, bind_eq_ok.mpr ⟨(), failIf_eq_ok.mpr (by simpa using hspends),
      bind_eq_ok.mpr ⟨(), failIf_eq_ok.mpr hout, bind_eq_ok.mpr ⟨(), failIf_eq_ok.mpr hfee, rfl⟩⟩⟩⟩⟩

namespace Spend

variable {Tree Witness Rng W : Type} (t : TreeCalls Tree Witness) (lib : SaplingLib Rng W)

/-! ## The builder before it builds -/

/-- All spends and outputs of `PrepareTransaction`. -/
def fillBuilder (scanner : Scanner) (wallet : Wallet) (chainTip : UInt64)
    (recipientAddress : Bytes) (sendAmount : UInt64) (draws : Draws Rng) (selected : List FoundNote) :
    Option TxBuilder := do
  let totalInput := (selected.map FoundNote.value).sum
  let changeAmount := totalInput - sendAmount - computeFee selected.length 2
  let b ← addSpends t lib scanner wallet chainTip (newBuilder wallet chainTip)
    (withDraws draws selected)
  let b ← (b.addOutput lib (some recipientAddress) sendAmount draws.recipient).toOption
  addChange lib wallet changeAmount draws.change b

/-- The builder accepts what it was given, and the fee is what its spends are worth beyond its
outputs, within the bound. -/
structure FeesAgree (b : TxBuilder) (fee : UInt64) : Prop where
  accepted : ∃ r, b.build lib (some ()) = .ok r
  balance : ∃ ins outs, Worth (SpendParts.Opens lib) b.spends ins ∧
    Worth (OutputParts.Opens lib) b.outputs outs ∧ ins = outs + fee.toNat
  bounded : fee ≤ maxFeeZatoshis

/-- The full note has the value that the scan has found. -/
def FullValues (wallet : Wallet) (notes : List FoundNote) : Prop :=
  ∀ note ∈ notes, ∀ noteData, wallet.decryptFullNote note = some noteData →
    u64FromLeBytes (slice noteData 11 8) = note.value

variable {t lib} {scanner : Scanner} {wallet : Wallet} {chainTip : UInt64} {b b' : TxBuilder}

/-- What was added so far, as the lists and the totals of the builder have it. -/
structure Added (lib : SaplingLib Rng W) (b : TxBuilder) (ins outs : Nat) : Prop where
  spends : Worth (SpendParts.Opens lib) b.spends ins
  outputs : Worth (OutputParts.Opens lib) b.outputs outs
  totalInput : b.totalInput.toNat = ins % 2 ^ 64
  totalOutput : b.totalOutput.toNat = outs % 2 ^ 64

theorem added_newBuilder : Added lib (newBuilder wallet chainTip) 0 0 :=
  ⟨Worth.nil, Worth.nil, rfl, rfl⟩

theorem Added.addSpends {ins outs : Nat} {notes : List (FoundNote × SpendDraw Rng)}
    (hb : Added lib b ins outs) (hvalues : FullValues wallet (notes.map Prod.fst))
    (h : addSpends t lib scanner wallet chainTip b notes = some b') :
    Added lib b' (ins + total noteValue (notes.map Prod.fst)) outs ∧
      b'.spends.length = b.spends.length + notes.length := by
  induction notes generalizing b ins with
  | nil =>
    obtain rfl := Option.some.inj h
    exact ⟨hb, rfl⟩
  | cons entry rest ih =>
    obtain ⟨note, draw⟩ := entry
    obtain ⟨noteData, hnote, h⟩ := Option.bind_eq_some_iff.mp h
    obtain ⟨witnessData, -, h⟩ := Option.bind_eq_some_iff.mp h
    obtain ⟨⟨b₁, alpha⟩, hadd, h⟩ := Option.bind_eq_some_iff.mp h
    obtain ⟨data, spend, hdata, hopens, rfl⟩ := TxBuilder.addSpend_ok (toOption_eq_some.mp hadd)
    obtain rfl := Option.some.inj hdata
    rw [List.map_cons] at hvalues
    have hvalue := hvalues note List.mem_cons_self _ hnote
    have hb₁ : Added lib { b with
        totalInput := b.totalInput + u64FromLeBytes (slice noteData 11 8)
        spends := b.spends ++ [spend]
        alphas := b.alphas ++ [draw.alpha] } (ins + note.value.toNat) outs := by
      refine ⟨?_, hb.outputs, ?_, hb.totalOutput⟩
      · rw [← hvalue]
        exact hb.spends.concat hopens
      · rw [UInt64.toNat_add, hb.totalInput, hvalue, Nat.mod_add_mod]
    obtain ⟨hadded, hlen⟩ := ih hb₁ (fun n hn => hvalues n (List.mem_cons_of_mem _ hn)) h
    refine ⟨?_, ?_⟩
    · rw [List.map_cons, total_cons, ← Nat.add_assoc]
      exact hadded
    · rw [hlen, List.length_append, List.length_singleton, List.length_cons]
      omega

theorem Added.addOutput {ins outs : Nat} {address : Option Bytes} {amount : UInt64}
    {draw : OutputDraw Rng} (hb : Added lib b ins outs)
    (h : b.addOutput lib address amount draw = .ok b') :
    Added lib b' ins (outs + amount.toNat) ∧ b'.spends = b.spends := by
  obtain ⟨output, hopens, rfl⟩ := TxBuilder.addOutput_ok h
  refine ⟨⟨hb.spends, hb.outputs.concat hopens, hb.totalInput, ?_⟩, rfl⟩
  rw [UInt64.toNat_add, hb.totalOutput, Nat.mod_add_mod]

theorem Added.addChange {ins outs : Nat} {changeAmount : UInt64} {draw : OutputDraw Rng}
    (hb : Added lib b ins outs) (h : addChange lib wallet changeAmount draw b = some b') :
    Added lib b' ins (outs + changeAmount.toNat) ∧ b'.spends = b.spends := by
  unfold Spend.addChange at h
  split at h
  · exact hb.addOutput (toOption_eq_some.mp h)
  · next hzero =>
    obtain rfl := Option.some.inj h
    have hchange : changeAmount.toNat = 0 := by
      rw [gt_iff_lt, UInt64.lt_iff_toNat_lt, UInt64.toNat_zero] at hzero
      omega
    rw [hchange]
    exact ⟨hb, rfl⟩

theorem added_fillBuilder {recipientAddress : Bytes} {sendAmount : UInt64} {draws : Draws Rng}
    {selected : List FoundNote} (hvalues : FullValues wallet selected)
    (h : fillBuilder t lib scanner wallet chainTip recipientAddress sendAmount draws selected =
      some b) :
    Added lib b (total noteValue selected) (sendAmount.toNat +
      ((selected.map FoundNote.value).sum - sendAmount - computeFee selected.length 2).toNat) ∧
      b.spends.length = selected.length := by
  obtain ⟨b₁, hspends, h⟩ := Option.bind_eq_some_iff.mp h
  obtain ⟨b₂, hsend, h⟩ := Option.bind_eq_some_iff.mp h
  have hvalues' : FullValues wallet ((withDraws draws selected).map Prod.fst) := by
    rwa [map_fst_withDraws]
  obtain ⟨hb₁, hlen⟩ := added_newBuilder.addSpends hvalues' hspends
  obtain ⟨hb₂, hspends₂⟩ := hb₁.addOutput (toOption_eq_some.mp hsend)
  obtain ⟨hb₃, hspends₃⟩ := hb₂.addChange h
  rw [map_fst_withDraws, Nat.zero_add, Nat.zero_add] at hb₃
  refine ⟨hb₃, ?_⟩
  rw [hspends₃, hspends₂, hlen, ← List.length_map (f := Prod.fst), map_fst_withDraws]
  exact Nat.zero_add _

/-! ## Whether the two agree -/

theorem ne_nil_of_attempt {notes selected : List FoundNote} (h : selected ∈ attempts notes) :
    selected ≠ [] := by
  rcases List.mem_append.mp h with h | h
  · obtain ⟨note, -, rfl⟩ := List.mem_map.mp h
    exact List.cons_ne_nil _ _
  · obtain ⟨k, hk, rfl⟩ := List.mem_map.mp h
    rw [List.mem_range] at hk
    rw [← List.length_pos_iff, List.length_take, (perm_smallestFirst notes).length_eq]
    omega

theorem of_prepareTransaction {scan : Scan} {sendAmount : UInt64} {selected : List FoundNote}
    (h : prepareTransaction scan sendAmount = some selected) :
    selected ≠ [] ∧
      sendAmount + computeFee selected.length 2 ≤ (selected.map FoundNote.value).sum := by
  unfold prepareTransaction at h
  split at h
  · nomatch h
  · cases hselect : selectNotes scan.unspent sendAmount with
    | none =>
      rw [hselect] at h
      nomatch h
    | some notes =>
      simp only [hselect] at h
      split at h
      · nomatch h
      · next hcheck =>
        obtain rfl := Option.some.inj h
        rw [selectNotes_eq_find] at hselect
        exact ⟨ne_nil_of_attempt (List.mem_of_find?_eq_some hselect), UInt64.not_lt.mp hcheck⟩

theorem balance_iff {ins : Nat} {total sendAmount fee : UInt64}
    (htotal : total.toNat = ins % 2 ^ 64) (hcheck : sendAmount + fee ≤ total) :
    ins = sendAmount.toNat + (total - sendAmount - fee).toNat + fee.toNat ↔
      ins / 2 ^ 64 = (sendAmount.toNat + fee.toNat) / 2 ^ 64 := by
  have hsub : total - sendAmount - fee = total - (sendAmount + fee) := by
    have hsend := sendAmount.toNat_lt
    have hfee := fee.toNat_lt
    have hlt := total.toNat_lt
    rw [← UInt64.toNat_inj, UInt64.toNat_sub, UInt64.toNat_sub, UInt64.toNat_sub, UInt64.toNat_add]
    omega
  have hle := UInt64.le_iff_toNat_le.mp hcheck
  rw [hsub, UInt64.toNat_sub_of_le _ _ hcheck]
  rw [UInt64.toNat_add, htotal] at *
  omega

/-- Two hundred notes pay the highest fee; with 2^51 of them the fee might wrap around. -/
theorem fee_bounded_iff (n : Nat) : computeFee n 2 ≤ maxFeeZatoshis ↔
    n ≤ 200 ∨ 2 ^ 51 ≤ n ∧ computeFee n 2 ≤ maxFeeZatoshis := by
  by_cases hn : n < 2 ^ 51
  · have hfee : BaseFee.toNat * max GraceActions n < 2 ^ 64 := by
      rw [toNat_baseFee, graceActions_eq]
      omega
    have hmax : maxFeeZatoshis.toNat = 1000000 := rfl
    rw [UInt64.le_iff_toNat_le, toNat_computeFee hfee, hmax, toNat_baseFee, graceActions_eq]
    omega
  · exact ⟨fun h => .inr ⟨Nat.le_of_not_lt hn, h⟩, fun h => h.elim (fun hle => by omega) And.right⟩

theorem feesAgree_iff (doc : lib.Documented) {scan : Scan} {recipientAddress : Bytes}
    {sendAmount : UInt64} {draws : Draws Rng} {selected : List FoundNote}
    (hselected : prepareTransaction scan sendAmount = some selected)
    (hvalues : FullValues wallet selected)
    (hfill : fillBuilder t lib scanner wallet chainTip recipientAddress sendAmount draws selected =
      some b) :
    FeesAgree lib b (computeFee selected.length 2) ↔
      (selected.length ≤ 200 ∨
        2 ^ 51 ≤ selected.length ∧ computeFee selected.length 2 ≤ maxFeeZatoshis) ∧
      total noteValue selected / 2 ^ 64 =
        (sendAmount.toNat + (computeFee selected.length 2).toNat) / 2 ^ 64 ∧
      (computeFee selected.length 2).toNat ≤ total noteValue selected % 2 ^ 64 := by
  rw [← fee_bounded_iff]
  obtain ⟨hne, hcheck⟩ := of_prepareTransaction hselected
  obtain ⟨hadded, hlen⟩ := added_fillBuilder hvalues hfill
  have hbalance := balance_iff (toNat_sum_values selected) hcheck
  have hspends : b.spends ≠ [] := by
    rw [← List.length_pos_iff, hlen]
    exact List.length_pos_iff.mpr hne
  generalize computeFee selected.length 2 = fee at *
  generalize ((selected.map FoundNote.value).sum - sendAmount - fee).toNat = change at *
  generalize total noteValue selected = ins at *
  have hin := hadded.totalInput
  have hout := hadded.totalOutput
  have hmax : maxFeeZatoshis.toNat = 1000000 := rfl
  constructor
  · rintro ⟨haccepted, ⟨ins', outs', hins', houts', heq⟩, hbounded⟩
    obtain rfl := hadded.spends.unique (SpendParts.opens_rightUnique doc) hins'
    obtain rfl := hadded.outputs.unique (OutputParts.opens_rightUnique doc) houts'
    refine ⟨hbounded, hbalance.mp heq, ?_⟩
    obtain ⟨-, hle, -⟩ := (TxBuilder.build_isOk_iff b).mp haccepted
    have hfee := UInt64.le_iff_toNat_le.mp hbounded
    rw [UInt64.le_iff_toNat_le] at hle
    omega
  · rintro ⟨hbounded, hwrap, hrest⟩
    have heq := hbalance.mpr hwrap
    have hfee := UInt64.le_iff_toNat_le.mp hbounded
    refine ⟨(TxBuilder.build_isOk_iff b).mpr ⟨hspends, ?_⟩, ?_, hbounded⟩
    · have hle : b.totalOutput ≤ b.totalInput := by
        rw [UInt64.le_iff_toNat_le]
        omega
      refine ⟨hle, ?_⟩
      rw [UInt64.le_iff_toNat_le, UInt64.toNat_sub_of_le _ _ hle]
      omega
    · exact ⟨_, _, hadded.spends, hadded.outputs, heq⟩

section Samples

open Reference

/-- Trees that are not looked at. -/
def noTrees : TreeCalls Unit Unit where
  treeFromState _ := some ()
  treeAppend _ _ := some ()
  treeWitness _ := some ()
  witnessAppend _ _ := some ()
  witnessSerialize _ := some []

def oneOutputScanner : Scanner where
  getTreeState _ := some []
  scanBlock _ := some [⟨[1], [zeroRoot]⟩]

def smallNote : FoundNote := ⟨10, [1], 0, 10000, 0⟩

def smallNotes (n : Nat) : Scan where
  notes := List.replicate n smallNote
  nullifier note := some note.txHash
  spentNullifiers := []

theorem sorted_smallNotes (n : Nat) (le : FoundNote → FoundNote → Bool)
    (h : le smallNote smallNote = true) :
    (List.replicate n smallNote).mergeSort le = List.replicate n smallNote :=
  List.mergeSort_of_pairwise (List.pairwise_replicate.mpr (.inr h))

def smallBuilder (sendAmount : UInt64) (k : Nat) : Option TxBuilder :=
  fillBuilder noTrees sapling oneOutputScanner twoNotesWallet 10 [] sendAmount noDraws
    (List.replicate k smallNote)

theorem fullValues_small (k : Nat) : FullValues twoNotesWallet (List.replicate k smallNote) := by
  intro note hnote noteData hdata
  obtain rfl := List.eq_of_mem_replicate hnote
  obtain rfl := Option.some.inj hdata
  decide +kernel

theorem selects_many :
    prepareTransaction (smallNotes 201) 1005000 = some (List.replicate 201 smallNote) := by
  have hunspent : (smallNotes 201).unspent = List.replicate 201 smallNote := by decide +kernel
  unfold prepareTransaction selectNotes
  rw [hunspent, sorted_smallNotes 201 _ (by decide), sorted_smallNotes 201 _ (by decide)]
  decide +kernel

theorem selects_two :
    prepareTransaction (smallNotes 3) 5000 = some (List.replicate 2 smallNote) := by
  have hunspent : (smallNotes 3).unspent = List.replicate 3 smallNote := by decide +kernel
  unfold prepareTransaction selectNotes
  rw [hunspent, sorted_smallNotes 3 _ (by decide), sorted_smallNotes 3 _ (by decide)]
  decide +kernel

/-- The client takes a fee for 201 notes that the builder refuses. -/
theorem fees_disagree_many :
    prepareTransaction (smallNotes 201) 1005000 = some (List.replicate 201 smallNote) ∧
    ∃ b, smallBuilder 1005000 201 = some b ∧ (∀ r, b.build sapling (some ()) ≠ .ok r) ∧
      ¬ FeesAgree sapling b (computeFee 201 2) := by
  refine ⟨selects_many, ?_⟩
  obtain ⟨b, hb⟩ := Option.isSome_iff_exists.mp
    (show (smallBuilder 1005000 201).isSome by decide +kernel)
  have hrefused : ((smallBuilder 1005000 201).bind fun b =>
      (b.build sapling (some ())).toOption).isNone := by decide +kernel
  rw [hb, Option.bind_some, Option.isNone_iff_eq_none] at hrefused
  refine ⟨b, hb, fun r hr => ?_, fun hagree => ?_⟩
  · rw [hr] at hrefused
    nomatch hrefused
  · exact absurd hagree.bounded (by decide)

theorem fees_agree_two : ∃ b, smallBuilder 5000 2 = some b ∧ FeesAgree sapling b (computeFee 2 2) := by
  obtain ⟨b, hb⟩ := Option.isSome_iff_exists.mp (show (smallBuilder 5000 2).isSome by decide +kernel)
  exact ⟨b, hb, (feesAgree_iff sapling_documented selects_two (fullValues_small 2) hb).mpr
    (by decide +kernel)⟩

end Samples

end Spend
