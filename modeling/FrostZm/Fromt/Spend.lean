import FrostZm.Client.SpentMarks
import FrostZm.Ffi.Codec
import FrostZm.Lib.Selection

/-!
# The outputs of a Monero spend

The outputs that the daemon's reply or the client's own list shows as spent are left out, and
`prepare_spend` takes the largest of the others until they pay for the amount and for themselves.
-/

namespace SpentMarks.Fromt

open Selection

/-! ## Selecting inputs -/

def outputAmount (output : WalletOutput) : Nat := output.amount.toNat

/-- The weight that is estimated for so many inputs. -/
def estimatedWeight (inputs : Nat) : Nat := 1500 + inputs * 2100

/-- The amount and the fee estimate of a transaction with so many inputs. -/
def spendCost (amount : UInt64) (fee : Nat → UInt64) (inputs : Nat) : Nat :=
  amount.toNat + (fee (estimatedWeight inputs)).toNat

/-- The outputs pay for the amount and the fee that is estimated for them. -/
def Pays (amount : UInt64) (fee : Nat → UInt64) (outputs : List WalletOutput) : Prop :=
  Covers outputAmount (spendCost amount fee) outputs

/-- No sum of the selection is beyond 64 bits. -/
structure SumsFit (outputs : List WalletOutput) (amount : UInt64) (fee : Nat → UInt64) : Prop where
  total : total outputAmount outputs < 2 ^ 64
  cost : ∀ inputs, 1 ≤ inputs → inputs ≤ outputs.length → spendCost amount fee inputs < 2 ^ 64

/-- The comparison that the loop makes. -/
def Sufficient (amount : UInt64) (fee : Nat → UInt64) (outputs : List WalletOutput) : Prop :=
  (outputs.map WalletOutput.amount).sum ≥ amount + fee (estimatedWeight outputs.length)

variable {amount : UInt64} {fee : Nat → UInt64} {outputs selected sub : List WalletOutput}

theorem accumulate_eq (amount : UInt64) (fee : Nat → UInt64)
    (selected outputs : List WalletOutput) :
    ∃ k ≤ outputs.length,
      accumulate amount fee selected (selected.map WalletOutput.amount).sum outputs =
        (selected ++ outputs.take k, ((selected ++ outputs.take k).map WalletOutput.amount).sum) ∧
      ((1 ≤ k ∧ Sufficient amount fee (selected ++ outputs.take k)) ∨
        (k = outputs.length ∧ ∀ j, 1 ≤ j → j ≤ outputs.length →
          ¬ Sufficient amount fee (selected ++ outputs.take j))) := by
  induction outputs generalizing selected with
  | nil =>
    refine ⟨0, le_refl _, ?_, .inr ⟨rfl, fun j hj hle => ?_⟩⟩
    · rw [List.take_zero, List.append_nil, accumulate]
    · rw [List.length_nil] at hle
      omega
  | cons output rest ih =>
    have hsum : (selected.map WalletOutput.amount).sum + output.amount =
        ((selected ++ [output]).map WalletOutput.amount).sum := by
      rw [List.map_append, List.sum_append, List.map_singleton, List.sum_singleton]
    have htake : ∀ j, selected ++ (output :: rest).take (j + 1) =
        (selected ++ [output]) ++ rest.take j := by
      intro j
      rw [List.take_succ_cons, List.append_assoc, List.singleton_append]
    simp only [accumulate, hsum]
    split
    · next hstop =>
      refine ⟨1, by rw [List.length_cons]; omega, ?_, .inl ⟨le_refl _, ?_⟩⟩
      · rw [htake, List.take_zero, List.append_nil]
      · rw [htake, List.take_zero, List.append_nil]
        exact hstop
    · next hgoOn =>
      obtain ⟨k, hk, heq, hcase⟩ := ih (selected ++ [output])
      refine ⟨k + 1, by rw [List.length_cons]; omega, ?_, ?_⟩
      · rw [heq, htake]
      · rcases hcase with ⟨-, hsuff⟩ | ⟨rfl, hnone⟩
        · exact .inl ⟨by omega, htake k ▸ hsuff⟩
        · refine .inr ⟨List.length_cons.symm, fun j hj hle => ?_⟩
          obtain ⟨j, rfl⟩ := Nat.exists_eq_add_of_le' hj
          rw [htake]
          rcases Nat.eq_zero_or_pos j with rfl | hpos
          · rw [List.take_zero, List.append_nil]
            exact hgoOn
          · rw [List.length_cons] at hle
            exact hnone j hpos (by omega)

def largestFirst (outputs : List WalletOutput) : List WalletOutput :=
  outputs.mergeSort fun a b => a.amount ≥ b.amount

theorem perm_largestFirst (outputs : List WalletOutput) : (largestFirst outputs).Perm outputs :=
  List.mergeSort_perm _ _

theorem descending_largestFirst (outputs : List WalletOutput) :
    Descending outputAmount (largestFirst outputs) := by
  refine descending_mergeSort outputAmount (fun a b => ?_) outputs
  rw [decide_eq_true_eq]
  exact UInt64.le_iff_toNat_le

theorem toNat_sum_amounts (outputs : List WalletOutput) :
    (outputs.map WalletOutput.amount).sum.toNat = total outputAmount outputs % 2 ^ 64 :=
  toNat_sum_map WalletOutput.amount outputs

theorem sufficient_iff (h : SumsFit outputs amount fee) (hsub : sub.Subperm outputs)
    (hne : sub ≠ []) : Sufficient amount fee sub ↔ Pays amount fee sub := by
  have htotal : total outputAmount sub < 2 ^ 64 := by
    exact lt_of_le_of_lt (total_le_of_subperm hsub) h.total
  have hcost := h.cost sub.length (List.length_pos_iff.mpr hne) hsub.length_le
  unfold Sufficient Pays Covers
  unfold spendCost at hcost ⊢
  rw [ge_iff_le, UInt64.le_iff_toNat_le, toNat_sum_amounts, UInt64.toNat_add,
    Nat.mod_eq_of_lt htotal, Nat.mod_eq_of_lt hcost]

/-- The selection is sufficient, and there is one as soon as any choice is. -/
structure SelectsIfPossible (outputs : List WalletOutput) (amount : UInt64) (fee : Nat → UInt64)
    (result : Option (List WalletOutput)) : Prop where
  complete : (∃ selected, result = some selected) ↔
    ∃ sub : List WalletOutput, sub.Sublist outputs ∧ sub ≠ [] ∧ Pays amount fee sub
  sound : ∀ selected, result = some selected →
    selected.Subperm outputs ∧ selected ≠ [] ∧ Pays amount fee selected

theorem length_take_largestFirst {j : Nat} (hle : j ≤ outputs.length) :
    ((largestFirst outputs).take j).length = j := by
  rw [List.length_take, (perm_largestFirst outputs).length_eq, Nat.min_eq_left hle]

theorem take_largestFirst_subperm (j : Nat) : ((largestFirst outputs).take j).Subperm outputs :=
  (List.take_sublist j _).subperm.trans (perm_largestFirst outputs).subperm

theorem sufficient_take_iff (h : SumsFit outputs amount fee) {j : Nat} (hj : 1 ≤ j)
    (hle : j ≤ outputs.length) :
    Sufficient amount fee ((largestFirst outputs).take j) ↔
      Pays amount fee ((largestFirst outputs).take j) := by
  refine sufficient_iff h (take_largestFirst_subperm j) ?_
  rw [← List.length_pos_iff, length_take_largestFirst hle]
  exact hj

/-- The loop and the check behind it take as many of the largest outputs as are sufficient. If
they take none, no number of them is. -/
theorem prepareSpend_cases (excluded : List Bytes) (owned : List WalletOutput)
    (checkKeyImages : Option (List WalletOutput → List Bool)) (amount : UInt64)
    (fee : Nat → UInt64) (hunspent : unspentOutputs excluded owned checkKeyImages = outputs) :
    (∃ k, 1 ≤ k ∧ k ≤ outputs.length ∧
      prepareSpend excluded owned checkKeyImages amount fee =
        some ((largestFirst outputs).take k) ∧
      Sufficient amount fee ((largestFirst outputs).take k)) ∨
    (prepareSpend excluded owned checkKeyImages amount fee = none ∧
      ∀ j, 1 ≤ j → j ≤ outputs.length →
        ¬ Sufficient amount fee ((largestFirst outputs).take j)) := by
  obtain ⟨k, hk, heq, hcase⟩ := accumulate_eq amount fee [] (largestFirst outputs)
  rw [(perm_largestFirst outputs).length_eq] at hk hcase
  simp only [List.map_nil, List.sum_nil, List.nil_append] at heq hcase
  unfold largestFirst at heq
  unfold prepareSpend
  simp only [hunspent, heq]
  have hstop : ∀ l : List WalletOutput,
      (l.map WalletOutput.amount).sum < amount + fee (1500 + l.length * 2100) ↔
        ¬ Sufficient amount fee l := fun l => UInt64.not_le.symm
  by_cases hempty : outputs = []
  · refine .inr ⟨if_pos hempty, fun j hj hle => ?_⟩
    rw [hempty, List.length_nil] at hle
    omega
  · have hpos := List.length_pos_iff.mpr hempty
    rw [if_neg hempty]
    by_cases hsuff : Sufficient amount fee ((largestFirst outputs).take k)
    · refine .inl ⟨k, ?_, hk, if_neg fun h => (hstop _).mp h hsuff, hsuff⟩
      rcases hcase with ⟨hone, -⟩ | ⟨rfl, -⟩
      · exact hone
      · exact hpos
    · refine .inr ⟨if_pos ((hstop _).mpr hsuff), ?_⟩
      rcases hcase with ⟨-, hyes⟩ | ⟨-, hnone⟩
      · exact absurd hyes hsuff
      · exact hnone

/-- `prepare_spend` selects outputs exactly if some of the unspent ones pay, and then it selects
such. -/
theorem prepareSpend_selects (excluded : List Bytes) (owned : List WalletOutput)
    (checkKeyImages : Option (List WalletOutput → List Bool)) (amount : UInt64)
    (fee : Nat → UInt64) (hfit : SumsFit (unspentOutputs excluded owned checkKeyImages) amount fee) :
    SelectsIfPossible (unspentOutputs excluded owned checkKeyImages) amount fee
      (prepareSpend excluded owned checkKeyImages amount fee) := by
  have hcases := prepareSpend_cases excluded owned checkKeyImages amount fee rfl
  revert hfit hcases
  generalize unspentOutputs excluded owned checkKeyImages = unspent
  intro hfit hcases
  obtain ⟨k, hpos, hle, heq, hsuff⟩ | ⟨hnone, hstop⟩ := hcases
  · have hpays := (sufficient_take_iff hfit hpos hle).mp hsuff
    have hne : (largestFirst unspent).take k ≠ [] := by
      rw [← List.length_pos_iff, length_take_largestFirst hle]
      exact hpos
    refine ⟨⟨fun _ => ?_, fun _ => ⟨_, heq⟩⟩, fun selected h => ?_⟩
    · obtain ⟨sub, hperm, hsub⟩ := @take_largestFirst_subperm unspent k
      refine ⟨sub, hsub, fun hnil => hne (List.nil_perm.mp (hnil ▸ hperm)), ?_⟩
      unfold Pays Covers at *
      rwa [hperm.length_eq, total_perm hperm]
    · obtain rfl := Option.some.inj (heq.symm.trans h)
      exact ⟨take_largestFirst_subperm k, hne, hpays⟩
  · rw [hnone]
    refine ⟨⟨?_, ?_⟩, fun _ h => nomatch h⟩
    · rintro ⟨selected, h⟩
      nomatch h
    · rintro ⟨sub, hsub, hne, hpays⟩
      -- as many of the largest outputs would pay too
      have hpos := List.length_pos_iff.mpr hne
      have htake := covers_take (descending_largestFirst unspent)
        (hsub.subperm.trans (perm_largestFirst unspent).symm.subperm) hpays
      exact absurd ((sufficient_take_iff hfit hpos hsub.length_le).mpr htake)
        (hstop _ hpos hsub.length_le)

/-- Twenty piconero for a unit of weight. -/
def sampleFee (weight : Nat) : UInt64 := .ofNat (weight * 20)

def sampleOutputs : List WalletOutput := [⟨[1], 90000⟩, ⟨[2], 150000⟩]

theorem sumsFit_sample : SumsFit (unspentOutputs [] sampleOutputs none) 100000 sampleFee where
  total := by decide
  cost inputs hpos hle := by
    have hlen : (unspentOutputs [] sampleOutputs none).length = 2 := by decide
    rw [hlen] at hle
    obtain rfl | rfl : inputs = 1 ∨ inputs = 2 := by omega
    · decide
    · decide

theorem prepareSpend_selects_sample :
    SelectsIfPossible (unspentOutputs [] sampleOutputs none) 100000 sampleFee
      (prepareSpend [] sampleOutputs none 100000 sampleFee) :=
  prepareSpend_selects [] sampleOutputs none 100000 sampleFee sumsFit_sample

/-! ## Leaving out what is spent -/

/-- `check_key_images_spent`: a status that is no number counts as zero. Without a key image the
daemon is not asked. -/
def checkKeyImagesSpent (statuses : List (Option UInt64)) (keyImages : List Bytes) : List Bool :=
  if keyImages = [] then [] else statuses.map fun s => s.getD 0 ≠ 0

/-- The check of `prepare_spend` and `scan_balance`. Only with the spend key there is one, and the
daemon then replies with statuses. -/
def spendKeyCheck (keyImage : WalletOutput → Bytes) (reply : Option (List (Option UInt64))) :
    Option (List WalletOutput → List Bool) :=
  reply.map fun statuses outputs => checkKeyImagesSpent statuses (outputs.map keyImage)

/-- The outputs whose balance `scan_balance` reports. -/
def scanUnspent (owned : List WalletOutput) (checkKeyImages : Option (List WalletOutput → List Bool)) :
    List WalletOutput :=
  match checkKeyImages with
  | none => owned
  | some check => ((owned.zip (check owned)).filter fun e => !e.2).map Prod.fst

/-- `scan_balance` from the owned outputs on. -/
def scanBalance (owned : List WalletOutput) (checkKeyImages : Option (List WalletOutput → List Bool)) :
    UInt64 × UInt32 :=
  let owned := scanUnspent owned checkKeyImages
  (owned.foldl (fun balance output => balance + output.amount) 0, .ofNat owned.length)

/-- The amount in the record of 72 bytes with index `i`. -/
def amountAt (outputsData : Bytes) (i : Nat) : UInt64 :=
  u64FromLeBytes (slice outputsData (4 + i * 72 + 64) 8)

/-- One turn of the loop over the records. -/
def addUnspent (outputsData spentFlags : Bytes) (sums : UInt64 × UInt32) (i : Nat) :
    UInt64 × UInt32 :=
  if spentFlags.getD i 0 = 0 then (sums.1 + amountAt outputsData i, sums.2 + 1) else sums

def filterSpentOutputs (outputsData spentFlags : Bytes) : Result (UInt64 × UInt32) := do
  failIf (outputsData.length < 4) .serializationError
  let count := (u32FromLeBytes (slice outputsData 0 4)).toNat
  failIf (outputsData.length < 4 + count * 72) .serializationError
  failIf (spentFlags.length < count) .serializationError
  return (List.range count).foldl (addUnspent outputsData spentFlags) (0, 0)

/-! ## What should be left -/

/-- Those that no flag shows as spent, in their order. -/
def unflagged {α : Type} (l : List α) (flags : List Bool) : List α :=
  (l.zipIdx.filter fun e => !flags.getD e.2 false).map Prod.fst

/-- The flags that the reply gives. -/
def flagsOf (reply : Option (List (Option UInt64))) : List Bool :=
  (reply.getD []).map fun s => s.getD 0 ≠ 0

/-- Those that are not excluded. -/
def included (excluded : List Bytes) (owned : List WalletOutput) : List WalletOutput :=
  owned.filter fun output => output.keyOffset ∉ excluded

/-- Whatever is to be sent, `prepare_spend` fails or selects from the right outputs. -/
def PrepareKeeps (excluded : List Bytes) (owned : List WalletOutput)
    (keyImage : WalletOutput → Bytes) (reply : Option (List (Option UInt64))) : Prop :=
  ∀ amount fee, prepareSpend excluded owned (spendKeyCheck keyImage reply) amount fee = none ∨
    unspentOutputs excluded owned (spendKeyCheck keyImage reply) =
      unflagged (included excluded owned) (flagsOf reply)

/-- `scan_balance` reports the sum of the right outputs. -/
structure BalanceKeeps (owned : List WalletOutput) (keyImage : WalletOutput → Bytes)
    (reply : Option (List (Option UInt64))) : Prop where
  kept : scanUnspent owned (spendKeyCheck keyImage reply) = unflagged owned (flagsOf reply)
  balance : (scanBalance owned (spendKeyCheck keyImage reply)).1.toNat =
    total outputAmount (unflagged owned (flagsOf reply))

/-- A status for each of the outputs is there, where the daemon is asked. -/
def Answers (reply : Option (List (Option UInt64))) (outputs : List WalletOutput) : Prop :=
  ∀ statuses, reply = some statuses → outputs.length ≤ statuses.length

/-- The indices of the records that are not flagged. -/
def unspentRecords (outputsData spentFlags : Bytes) : List Nat :=
  (List.range (u32FromLeBytes (slice outputsData 0 4)).toNat).filter fun i => spentFlags.getD i 0 = 0

def recordAmount (outputsData : Bytes) (i : Nat) : Nat := (amountAt outputsData i).toNat

/-- `filter_spent_outputs` fails or reports the number and the sum of the right records. -/
def FilterKeeps (outputsData spentFlags : Bytes) : Prop :=
  ∀ balance numUnspent, filterSpentOutputs outputsData spentFlags = .ok (balance, numUnspent) →
    balance.toNat = total (recordAmount outputsData) (unspentRecords outputsData spentFlags) ∧
      numUnspent.toNat = (unspentRecords outputsData spentFlags).length

/-- The records and a flag for each of them are there. -/
structure Complete (outputsData spentFlags : Bytes) : Prop where
  header : 4 ≤ outputsData.length
  records : 4 + (u32FromLeBytes (slice outputsData 0 4)).toNat * 72 ≤ outputsData.length
  flags : (u32FromLeBytes (slice outputsData 0 4)).toNat ≤ spentFlags.length

/-! ## The flags -/

section Flags

variable {α : Type}

theorem unflagged_nil (l : List α) : unflagged l [] = l := by
  unfold unflagged
  rw [List.filter_eq_self.mpr fun e _ => by rw [List.getD_nil]; rfl]
  exact List.zipIdx_map_fst 0 l

theorem unflagged_cons (a : α) (l : List α) (f : Bool) (flags : List Bool) :
    unflagged (a :: l) (f :: flags) = (if f then [] else [a]) ++ unflagged l flags := by
  have htail : (l.zipIdx 1).filter (fun e => !(f :: flags).getD e.2 false) =
      (l.zipIdx.filter fun e => !flags.getD e.2 false).map fun e => (e.1, e.2 + 1) := by
    rw [List.zipIdx_succ, List.filter_map]
    congr 1
  unfold unflagged
  rw [List.zipIdx_cons, List.filter_cons, htail]
  cases f
  · simp
  · simp

theorem unflagged_eq (l : List α) (flags : List Bool) :
    unflagged l flags = ((l.zip flags).filter fun e => !e.2).map Prod.fst ++ l.drop flags.length := by
  induction l generalizing flags with
  | nil => simp [unflagged]
  | cons a l ih =>
    cases flags with
    | nil => rw [unflagged_nil, List.zip_nil_right]; rfl
    | cons f flags =>
      rw [unflagged_cons, ih, List.zip_cons_cons, List.filter_cons, List.length_cons,
        List.drop_succ_cons]
      cases f
      · rfl
      · rfl

theorem zipped_eq_unflagged_iff (l : List α) (flags : List Bool) :
    ((l.zip flags).filter fun e => !e.2).map Prod.fst = unflagged l flags ↔
      l.length ≤ flags.length := by
  rw [unflagged_eq, List.self_eq_append_right, List.drop_eq_nil_iff]

end Flags

section Filters

variable {excluded : List Bytes} {owned : List WalletOutput} {keyImage : WalletOutput → Bytes}
  {reply : Option (List (Option UInt64))}

variable (keyImage) in
theorem zip_checkKeyImagesSpent (statuses : List (Option UInt64)) (outputs : List WalletOutput) :
    outputs.zip (checkKeyImagesSpent statuses (outputs.map keyImage)) =
      outputs.zip (flagsOf (some statuses)) := by
  unfold checkKeyImagesSpent
  split
  · next h =>
    obtain rfl := List.map_eq_nil_iff.mp h
    rfl
  · rfl

theorem unspentOutputs_some (statuses : List (Option UInt64)) :
    unspentOutputs excluded owned (spendKeyCheck keyImage (some statuses)) =
      (((included excluded owned).zip (flagsOf (some statuses))).filter fun e => !e.2).map
        Prod.fst := by
  rw [← zip_checkKeyImagesSpent keyImage]
  rfl

theorem scanUnspent_eq (owned : List WalletOutput) :
    scanUnspent owned (spendKeyCheck keyImage reply) =
      unspentOutputs [] owned (spendKeyCheck keyImage reply) := by
  have hall : owned.filter (fun output => decide (output.keyOffset ∉ ([] : List Bytes))) = owned :=
    List.filter_eq_self.mpr fun _ _ => rfl
  unfold unspentOutputs
  simp only [hall]
  rfl

theorem length_flagsOf (statuses : List (Option UInt64)) :
    (flagsOf (some statuses)).length = statuses.length := List.length_map ..

variable (excluded owned keyImage reply) in
theorem unspentOutputs_eq_iff :
    unspentOutputs excluded owned (spendKeyCheck keyImage reply) =
        unflagged (included excluded owned) (flagsOf reply) ↔
      Answers reply (included excluded owned) := by
  cases reply with
  | none =>
    have hflags : flagsOf none = [] := rfl
    rw [hflags, unflagged_nil]
    exact ⟨fun _ => nofun, fun _ => rfl⟩
  | some statuses =>
    rw [unspentOutputs_some, zipped_eq_unflagged_iff, length_flagsOf]
    exact ⟨fun h _ heq => Option.some.inj heq ▸ h, fun h => h statuses rfl⟩

theorem exists_prepareSpend {check : Option (List WalletOutput → List Bool)}
    (h : unspentOutputs excluded owned check ≠ []) :
    prepareSpend excluded owned check 0 (fun _ => 0) ≠ none := by
  have hzero : ∀ total : UInt64, ¬ total < 0 + 0 := fun total =>
    UInt64.not_lt.mpr UInt64.zero_le
  unfold prepareSpend
  simp only [if_neg h, if_neg (hzero _)]
  nofun

variable (keyImage) in
theorem unspentOutputs_eq_nil (hanswer : ¬ Answers reply (included excluded owned)) :
    unspentOutputs excluded owned (spendKeyCheck keyImage reply) = [] ↔
      ∀ flag ∈ flagsOf reply, flag = true := by
  cases reply with
  | none => exact absurd nofun hanswer
  | some statuses =>
    have hshort : (flagsOf (some statuses)).length ≤ (included excluded owned).length := by
      rw [length_flagsOf]
      by_contra hlong
      exact hanswer fun _ heq => Option.some.inj heq ▸ by omega
    rw [unspentOutputs_some, List.map_eq_nil_iff, List.filter_eq_nil_iff]
    constructor
    · intro h flag hflag
      rw [← List.map_snd_zip hshort] at hflag
      obtain ⟨e, he, rfl⟩ := List.mem_map.mp hflag
      simpa using h e he
    · intro h e he
      rw [h e.2 (List.of_mem_zip he).2]
      nofun

/-- A reply that is too short loses outputs, unless all that is left is spent. -/
theorem prepareKeeps_iff :
    PrepareKeeps excluded owned keyImage reply ↔
      Answers reply (included excluded owned) ∨ ∀ flag ∈ flagsOf reply, flag = true := by
  unfold PrepareKeeps
  simp only [unspentOutputs_eq_iff]
  by_cases hanswer : Answers reply (included excluded owned)
  · exact ⟨fun _ => .inl hanswer, fun _ _ _ => .inr hanswer⟩
  · rw [or_iff_right hanswer, ← unspentOutputs_eq_nil keyImage hanswer]
    constructor
    · intro h
      by_contra hne
      rcases h 0 (fun _ => 0) with hnone | hall
      · exact exists_prepareSpend hne hnone
      · exact hanswer hall
    · intro h amount fee
      left
      unfold prepareSpend
      simp only [if_pos h]

theorem foldl_amounts (owned : List WalletOutput) (balance : UInt64) :
    owned.foldl (fun balance output => balance + output.amount) balance =
      balance + (owned.map WalletOutput.amount).sum := by
  induction owned generalizing balance with
  | nil => exact (UInt64.add_zero balance).symm
  | cons output owned ih =>
    rw [List.foldl_cons, ih, List.map_cons, List.sum_cons, UInt64.add_assoc]

theorem balanceKeeps_iff :
    BalanceKeeps owned keyImage reply ↔
      Answers reply owned ∧ total outputAmount (unflagged owned (flagsOf reply)) < 2 ^ 64 := by
  have hincluded : included [] owned = owned := List.filter_eq_self.mpr fun _ _ => rfl
  have hkept : scanUnspent owned (spendKeyCheck keyImage reply) =
      unflagged owned (flagsOf reply) ↔ Answers reply owned := by
    have h := unspentOutputs_eq_iff [] owned keyImage reply
    rwa [hincluded, ← scanUnspent_eq] at h
  have hsum : ∀ outputs : List WalletOutput,
      (outputs.foldl (fun balance output => balance + output.amount) (0 : UInt64)).toNat =
        total outputAmount outputs ↔ total outputAmount outputs < 2 ^ 64 := by
    intro outputs
    rw [foldl_amounts, UInt64.zero_add, toNat_sum_amounts]
    exact ⟨fun h => h ▸ Nat.mod_lt _ (by decide), Nat.mod_eq_of_lt⟩
  constructor
  · rintro ⟨h, hbalance⟩
    unfold scanBalance at hbalance
    simp only [h] at hbalance
    exact ⟨hkept.mp h, (hsum _).mp hbalance⟩
  · rintro ⟨hanswers, hfits⟩
    have h := hkept.mpr hanswers
    refine ⟨h, ?_⟩
    unfold scanBalance
    simp only [h]
    exact (hsum _).mpr hfits

/-! ## The records -/

variable {outputsData spentFlags : Bytes}

variable (outputsData spentFlags) in
theorem foldl_addUnspent (records : List Nat) (sums : UInt64 × UInt32) :
    (records.foldl (addUnspent outputsData spentFlags) sums).1.toNat =
        (sums.1.toNat + total (recordAmount outputsData)
          (records.filter fun i => spentFlags.getD i 0 = 0)) % 2 ^ 64 ∧
      (records.foldl (addUnspent outputsData spentFlags) sums).2.toNat =
        (sums.2.toNat + (records.filter fun i => spentFlags.getD i 0 = 0).length) % 2 ^ 32 := by
  induction records generalizing sums with
  | nil => exact ⟨(Nat.mod_eq_of_lt sums.1.toNat_lt).symm, (Nat.mod_eq_of_lt sums.2.toNat_lt).symm⟩
  | cons i records ih =>
    rw [List.foldl_cons, List.filter_cons]
    obtain ⟨hbalance, hnum⟩ := ih (addUnspent outputsData spentFlags sums i)
    rw [hbalance, hnum]
    unfold addUnspent
    by_cases h : spentFlags.getD i 0 = 0
    · rw [if_pos h, if_pos (decide_eq_true h), total_cons, List.length_cons, UInt64.toNat_add,
        UInt32.toNat_add, Nat.mod_add_mod, Nat.mod_add_mod, Nat.add_assoc, Nat.add_assoc,
        UInt32.toNat_one, Nat.add_comm 1]
      exact ⟨rfl, rfl⟩
    · rw [if_neg h, if_neg (by simpa using h)]
      exact ⟨rfl, rfl⟩

theorem filterSpentOutputs_eq_ok {sums : UInt64 × UInt32} :
    filterSpentOutputs outputsData spentFlags = .ok sums ↔
      Complete outputsData spentFlags ∧
        (List.range (u32FromLeBytes (slice outputsData 0 4)).toNat).foldl
          (addUnspent outputsData spentFlags) (0, 0) = sums := by
  simp only [filterSpentOutputs, bind_eq_ok, failIf_eq_ok, not_lt, exists_const]
  constructor
  · rintro ⟨hheader, hrecords, hflags, hsums⟩
    exact ⟨⟨hheader, hrecords, hflags⟩, Except.ok.inj hsums⟩
  · rintro ⟨⟨hheader, hrecords, hflags⟩, rfl⟩
    exact ⟨hheader, hrecords, hflags, rfl⟩

theorem filterKeeps_iff :
    FilterKeeps outputsData spentFlags ↔
      (Complete outputsData spentFlags →
        total (recordAmount outputsData) (unspentRecords outputsData spentFlags) < 2 ^ 64) := by
  obtain ⟨hbalance, hnum⟩ := foldl_addUnspent outputsData spentFlags
    (List.range (u32FromLeBytes (slice outputsData 0 4)).toNat) (0, 0)
  have hcount : (unspentRecords outputsData spentFlags).length < 2 ^ 32 := by
    refine lt_of_le_of_lt (List.length_filter_le _ _) ?_
    rw [List.length_range]
    exact UInt32.toNat_lt _
  unfold FilterKeeps
  simp only [filterSpentOutputs_eq_ok]
  rw [UInt64.toNat_zero, Nat.zero_add, ← unspentRecords] at hbalance
  rw [UInt32.toNat_zero, Nat.zero_add, ← unspentRecords, Nat.mod_eq_of_lt hcount] at hnum
  constructor
  · intro h hcomplete
    rw [← (h _ _ ⟨hcomplete, rfl⟩).1]
    exact UInt64.toNat_lt _
  · rintro h balance numUnspent ⟨hcomplete, hsums⟩
    rw [hsums] at hbalance hnum
    rw [Nat.mod_eq_of_lt (h hcomplete)] at hbalance
    exact ⟨hbalance, hnum⟩

/-- What it takes for the three filters to lose nothing. Only `filter_spent_outputs` asks for as
many flags as there are outputs, and none of the sums is checked. -/
theorem spent_filters_keep_iff (excluded : List Bytes) (owned : List WalletOutput)
    (keyImage : WalletOutput → Bytes) (reply : Option (List (Option UInt64)))
    (outputsData spentFlags : Bytes) :
    (PrepareKeeps excluded owned keyImage reply ↔
      Answers reply (included excluded owned) ∨ ∀ flag ∈ flagsOf reply, flag = true) ∧
    (BalanceKeeps owned keyImage reply ↔
      Answers reply owned ∧ total outputAmount (unflagged owned (flagsOf reply)) < 2 ^ 64) ∧
    (FilterKeeps outputsData spentFlags ↔
      (Complete outputsData spentFlags →
        total (recordAmount outputsData) (unspentRecords outputsData spentFlags) < 2 ^ 64)) :=
  ⟨prepareKeeps_iff, balanceKeeps_iff, filterKeeps_iff⟩

/-- Two records of half the largest sum each. -/
def halfRecords : Bytes :=
  [2, 0, 0, 0] ++ List.replicate 71 0 ++ [0x80] ++ List.replicate 71 0 ++ [0x80]

/-- With one status for two outputs the second is lost, and two halves add up to nothing. -/
theorem spent_filters_lose :
    ¬ PrepareKeeps [] sampleOutputs WalletOutput.keyOffset (some [some 0]) ∧
      ¬ BalanceKeeps sampleOutputs WalletOutput.keyOffset (some [some 0]) ∧
      ¬ FilterKeeps halfRecords [0, 0] := by
  refine ⟨?_, ?_, ?_⟩
  · rw [prepareKeeps_iff]
    rintro (h | h)
    · exact absurd (h _ rfl) (by decide)
    · exact absurd (h false (by decide)) (by decide)
  · rw [balanceKeeps_iff]
    rintro ⟨h, -⟩
    exact absurd (h _ rfl) (by decide)
  · rw [filterKeeps_iff]
    intro h
    exact absurd (h ⟨by decide +kernel, by decide +kernel, by decide⟩) (by decide +kernel)

end Filters

end SpentMarks.Fromt
