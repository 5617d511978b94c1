import FrostZm.Client.SpentMarks
import FrostZm.Lib.Selection

/-!
# The notes of a spend

`selectNotes` tries the largest note alone and then the notes from the smallest on. The amount it
has to reach grows with each note, and is compared in 64 bits.
-/

namespace SpentMarks.Frozt

open Selection

/-! ## What a selection has to reach -/

theorem toNat_baseFee : BaseFee.toNat = 5000 := rfl

theorem graceActions_eq : GraceActions = 2 := rfl

theorem toNat_computeFee {n : Nat} (h : BaseFee.toNat * max GraceActions n < 2 ^ 64) :
    (computeFee n 2).toNat = BaseFee.toNat * max GraceActions n := by
  rw [toNat_baseFee, graceActions_eq] at h
  rw [computeFee, UInt64.toNat_mul, UInt64.toNat_ofNat', toNat_baseFee, graceActions_eq,
    Nat.mod_eq_of_lt (by omega), Nat.mod_eq_of_lt (by omega)]
  omega

def noteValue (note : FoundNote) : Nat := note.value.toNat

/-- The amount and the fee of a transaction that spends so many notes. -/
def noteCost (targetAmount : UInt64) (nSpends : Nat) : Nat :=
  targetAmount.toNat + (computeFee nSpends 2).toNat

/-- The comparison that `selectNotes` makes. -/
def Passes (targetAmount : UInt64) (selected : List FoundNote) : Prop :=
  (selected.map FoundNote.value).sum ≥ targetAmount + computeFee selected.length 2

instance (targetAmount : UInt64) (selected : List FoundNote) :
    Decidable (Passes targetAmount selected) := inferInstanceAs (Decidable (_ ≥ _))

def CoversAmount (targetAmount : UInt64) (selected : List FoundNote) : Prop :=
  Covers noteValue (noteCost targetAmount) selected

instance (targetAmount : UInt64) (selected : List FoundNote) :
    Decidable (CoversAmount targetAmount selected) := inferInstanceAs (Decidable (Covers _ _ _))

def largestFirst (notes : List FoundNote) : List FoundNote :=
  notes.mergeSort fun a b => a.value ≥ b.value

def smallestFirst (notes : List FoundNote) : List FoundNote :=
  notes.mergeSort fun a b => a.value ≤ b.value

/-- The selections that are tried, in their order. -/
def attempts (notes : List FoundNote) : List (List FoundNote) :=
  (largestFirst notes).map (fun note => [note]) ++
    (List.range notes.length).map fun k => (smallestFirst notes).take (k + 1)

/-- A selection takes each note once and reaches the amount and its own fee, and without one no
choice of notes does. -/
structure SelectsExactly (notes : List FoundNote) (targetAmount : UInt64) : Prop where
  sound : ∀ selected, selectNotes notes targetAmount = some selected →
    selected.Subperm notes ∧ CoversAmount targetAmount selected
  complete : selectNotes notes targetAmount = none →
    ∀ sub : List FoundNote, sub.Sublist notes → ¬ CoversAmount targetAmount sub

/-- The first attempt that passes reaches the amount. -/
def FirstPassCovers (notes : List FoundNote) (targetAmount : UInt64) : Prop :=
  ∀ before selected after, attempts notes = before ++ selected :: after →
    (∀ tried ∈ before, ¬ Passes targetAmount tried) → Passes targetAmount selected →
      CoversAmount targetAmount selected

/-- If some of the largest notes reach the amount, an attempt passes. -/
def FindsWhatCovers (notes : List FoundNote) (targetAmount : UInt64) : Prop :=
  ∀ k, CoversAmount targetAmount ((largestFirst notes).take k) →
    ∃ selected ∈ attempts notes, Passes targetAmount selected

/-! ## The attempts -/

variable {notes selected : List FoundNote} {targetAmount : UInt64}

theorem perm_largestFirst (notes : List FoundNote) : (largestFirst notes).Perm notes :=
  List.mergeSort_perm _ _

theorem perm_smallestFirst (notes : List FoundNote) : (smallestFirst notes).Perm notes :=
  List.mergeSort_perm _ _

theorem descending_largestFirst (notes : List FoundNote) :
    Descending noteValue (largestFirst notes) := by
  refine descending_mergeSort noteValue (fun a b => ?_) notes
  rw [decide_eq_true_eq]
  exact UInt64.le_iff_toNat_le

theorem ascending_smallestFirst (notes : List FoundNote) :
    Ascending noteValue (smallestFirst notes) := by
  refine ascending_mergeSort noteValue (fun a b => ?_) notes
  rw [decide_eq_true_eq]
  exact UInt64.le_iff_toNat_le

theorem accumulate_eq_find (targetAmount : UInt64) (selected notes : List FoundNote) :
    accumulate targetAmount selected (selected.map FoundNote.value).sum notes =
      ((List.range notes.length).map fun k => selected ++ notes.take (k + 1)).find? fun tried =>
        Passes targetAmount tried := by
  induction notes generalizing selected with
  | nil => rfl
  | cons note rest ih =>
    have hsum : (selected.map FoundNote.value).sum + note.value =
        ((selected ++ [note]).map FoundNote.value).sum := by
      rw [List.map_append, List.sum_append, List.map_singleton, List.sum_singleton]
    have hrest := ih (selected ++ [note])
    rw [List.length_cons, List.range_succ_eq_map, List.map_cons, List.map_map, List.take_succ_cons,
      List.take_zero, List.find?_cons]
    simp only [accumulate, hsum]
    split
    · next hpass =>
      have hp : decide (Passes targetAmount (selected ++ [note])) = true := decide_eq_true hpass
      rw [hp]
    · next hfail =>
      have hp : decide (Passes targetAmount (selected ++ [note])) = false := decide_eq_false hfail
      rw [hp, hrest]
      simp only [List.append_assoc, List.singleton_append]
      rfl

theorem selectNotes_eq_find (notes : List FoundNote) (targetAmount : UInt64) :
    selectNotes notes targetAmount =
      (attempts notes).find? fun tried => Passes targetAmount tried := by
  have hsingle : (fun note : FoundNote => decide (note.value ≥ targetAmount + computeFee 1 2)) =
      (fun tried => decide (Passes targetAmount tried)) ∘ fun note => [note] := by
    funext note
    simp only [Function.comp_apply, Passes, List.map_singleton, List.sum_singleton,
      List.length_singleton]
  have hlen : (smallestFirst notes).length = notes.length := (perm_smallestFirst notes).length_eq
  have hacc := accumulate_eq_find targetAmount [] (smallestFirst notes)
  simp only [List.map_nil, List.sum_nil, List.nil_append, hlen] at hacc
  unfold selectNotes attempts
  rw [List.find?_append, List.find?_map, ← hsingle, ← hacc]
  unfold largestFirst smallestFirst
  cases (notes.mergeSort fun a b => a.value ≥ b.value).find? fun note =>
      note.value ≥ targetAmount + computeFee 1 2 <;> rfl

theorem subperm_of_attempt (h : selected ∈ attempts notes) : selected.Subperm notes := by
  rcases List.mem_append.mp h with h | h
  · obtain ⟨note, hnote, rfl⟩ := List.mem_map.mp h
    exact (List.singleton_sublist.mpr hnote).subperm.trans (perm_largestFirst notes).subperm
  · obtain ⟨k, -, rfl⟩ := List.mem_map.mp h
    exact (List.take_sublist _ _).subperm.trans (perm_smallestFirst notes).subperm

theorem covers_largest {sub : List FoundNote} (hsub : sub.Subperm notes)
    (h : CoversAmount targetAmount sub) :
    CoversAmount targetAmount ((largestFirst notes).take sub.length) :=
  covers_take (descending_largestFirst notes)
    (hsub.trans (perm_largestFirst notes).symm.subperm) h

theorem exists_sublist_of_largest {k : Nat}
    (h : CoversAmount targetAmount ((largestFirst notes).take k)) :
    ∃ sub : List FoundNote, sub.Sublist notes ∧ CoversAmount targetAmount sub := by
  obtain ⟨sub, hperm, hsub⟩ := (List.take_sublist k (largestFirst notes)).subperm.trans
    (perm_largestFirst notes).subperm
  refine ⟨sub, hsub, ?_⟩
  unfold CoversAmount Covers at *
  rwa [hperm.length_eq, total_perm hperm]

theorem selectsExactly_iff (notes : List FoundNote) (targetAmount : UInt64) :
    SelectsExactly notes targetAmount ↔
      FirstPassCovers notes targetAmount ∧ FindsWhatCovers notes targetAmount := by
  constructor
  · intro h
    constructor
    · intro before selected after hsplit hbefore hpass
      have hfind : selectNotes notes targetAmount = some selected := by
        rw [selectNotes_eq_find, List.find?_eq_some_iff_append]
        refine ⟨decide_eq_true hpass, before, after, hsplit, fun tried htried => ?_⟩
        rw [Bool.not_eq_true', decide_eq_false_iff_not]
        exact hbefore tried htried
      exact (h.sound selected hfind).2
    · intro k hk
      by_contra hnone
      obtain ⟨sub, hsub, hcovers⟩ := exists_sublist_of_largest hk
      refine h.complete ?_ sub hsub hcovers
      rw [selectNotes_eq_find, List.find?_eq_none]
      intro tried htried hpass
      exact hnone ⟨tried, htried, of_decide_eq_true hpass⟩
  · rintro ⟨hfirst, hfinds⟩
    constructor
    · intro selected h
      rw [selectNotes_eq_find] at h
      refine ⟨subperm_of_attempt (List.mem_of_find?_eq_some h), ?_⟩
      obtain ⟨hpass, before, after, hsplit, hbefore⟩ := List.find?_eq_some_iff_append.mp h
      refine hfirst before selected after hsplit (fun tried htried hp => ?_) (of_decide_eq_true hpass)
      have hfail := hbefore tried htried
      rw [Bool.not_eq_true', decide_eq_false_iff_not] at hfail
      exact hfail hp
    · intro h sub hsub hcovers
      obtain ⟨tried, htried, hpass⟩ := hfinds _ (covers_largest hsub.subperm hcovers)
      rw [selectNotes_eq_find, List.find?_eq_none] at h
      exact h tried htried (decide_eq_true hpass)

/-! ## Where the sums of the notes fit -/

/-- The two largest notes, and all others that are worth the fee that they add. -/
def bestChoice (notes : List FoundNote) : List FoundNote :=
  worthwhile noteValue BaseFee.toNat GraceActions (largestFirst notes)

/-- The amount may be any. -/
structure NotesFit (notes : List FoundNote) : Prop where
  total : total noteValue notes < 2 ^ 64
  fee : BaseFee.toNat * max GraceActions notes.length < 2 ^ 64

structure NoSumWraps (notes : List FoundNote) (targetAmount : UInt64) : Prop where
  total : total noteValue notes < 2 ^ 64
  cost : targetAmount.toNat + BaseFee.toNat * max GraceActions notes.length < 2 ^ 64

/-- For so many notes the amount and the fee fit in 64 bits. -/
def payable (targetAmount : UInt64) : Nat := (2 ^ 64 - 1 - targetAmount.toNat) / BaseFee.toNat

/-- The fewest notes for which they wrap, where one note counts as two. -/
def firstWrapped (targetAmount : UInt64) : Nat := max GraceActions (payable targetAmount + 1)

/-- The largest note, the two smallest, or the most of the smallest whose sum does not wrap. -/
def Reached (notes : List FoundNote) (targetAmount : UInt64) : Prop :=
  CoversAmount targetAmount ((largestFirst notes).take 1) ∨
    CoversAmount targetAmount ((smallestFirst notes).take 2) ∨
      CoversAmount targetAmount ((smallestFirst notes).take (payable targetAmount))

/-- The largest note, the fewest of the smallest whose sum wraps, or all notes. -/
def PassesAtAnEnd (notes : List FoundNote) (targetAmount : UInt64) : Prop :=
  Passes targetAmount ((largestFirst notes).take 1) ∨
    Passes targetAmount ((smallestFirst notes).take (firstWrapped targetAmount)) ∨
      Passes targetAmount (smallestFirst notes)

@[simp] theorem largestFirst_nil : largestFirst [] = [] := List.mergeSort_nil

@[simp] theorem smallestFirst_nil : smallestFirst [] = [] := List.mergeSort_nil

@[simp] theorem attempts_nil : attempts [] = [] := by simp [attempts]

@[simp] theorem bestChoice_nil : bestChoice [] = [] := by simp [bestChoice, worthwhile]

theorem NoSumWraps.notesFit (h : NoSumWraps notes targetAmount) : NotesFit notes :=
  ⟨h.total, (Nat.le_add_left _ _).trans_lt h.cost⟩

theorem noteCost_eq {k : Nat} (h : NotesFit notes) (hk : k ≤ notes.length) :
    noteCost targetAmount k =
      linearCost (targetAmount.toNat + BaseFee.toNat * GraceActions) BaseFee.toNat GraceActions k := by
  have hfee := (Nat.mul_le_mul_left BaseFee.toNat (max_le_max_left GraceActions hk)).trans_lt h.fee
  rw [noteCost, toNat_computeFee hfee, linearCost, toNat_baseFee, graceActions_eq]
  omega

theorem wraps_iff {k : Nat} (h : NotesFit notes) (hk : k ≤ notes.length) :
    2 ^ 64 ≤ noteCost targetAmount k ↔ firstWrapped targetAmount ≤ max GraceActions k := by
  have htarget := targetAmount.toNat_lt
  rw [noteCost_eq h hk, linearCost, firstWrapped, payable, toNat_baseFee, graceActions_eq]
  omega

theorem le_firstWrapped (targetAmount : UInt64) :
    2 ^ 64 ≤ targetAmount.toNat + BaseFee.toNat * firstWrapped targetAmount := by
  have htarget := targetAmount.toNat_lt
  rw [firstWrapped, payable, toNat_baseFee]
  omega

/-- Once the sum has wrapped it grows as before. -/
theorem wrappedCost_eq {k : Nat} (h : NotesFit notes) (hk : k ≤ notes.length)
    (hwraps : firstWrapped targetAmount ≤ max GraceActions k) :
    noteCost targetAmount k = 2 ^ 64 +
      linearCost (targetAmount.toNat + BaseFee.toNat * firstWrapped targetAmount - 2 ^ 64)
        BaseFee.toNat (firstWrapped targetAmount) k := by
  have hfirst := le_firstWrapped targetAmount
  have hleast : GraceActions ≤ firstWrapped targetAmount := le_max_left _ _
  rw [graceActions_eq] at hleast hwraps
  rw [toNat_baseFee] at hfirst
  rw [noteCost_eq h hk, linearCost, linearCost, toNat_baseFee, graceActions_eq]
  omega

theorem toNat_sum_values (notes : List FoundNote) :
    (notes.map FoundNote.value).sum.toNat = total noteValue notes % 2 ^ 64 :=
  toNat_sum_map FoundNote.value notes

theorem passes_iff_mod (h : NotesFit notes) (hsub : selected.Subperm notes) :
    Passes targetAmount selected ↔
      noteCost targetAmount selected.length % 2 ^ 64 ≤ total noteValue selected := by
  have hsum := (total_le_of_subperm hsub).trans_lt h.total
  unfold Passes
  rw [ge_iff_le, UInt64.le_iff_toNat_le, toNat_sum_values, Nat.mod_eq_of_lt hsum, UInt64.toNat_add,
    ← noteCost]

/-- The comparison in 64 bits is exact for choices whose sum does not wrap. -/
theorem passes_iff (h : NotesFit notes) (hsub : selected.Subperm notes)
    (hfits : noteCost targetAmount selected.length < 2 ^ 64) :
    Passes targetAmount selected ↔ CoversAmount targetAmount selected := by
  rw [passes_iff_mod h hsub, Nat.mod_eq_of_lt hfits]
  rfl

theorem passes_iff_wrapped (h : NotesFit notes) (hsub : selected.Subperm notes)
    (hwraps : firstWrapped targetAmount ≤ max GraceActions selected.length) :
    Passes targetAmount selected ↔ Covers noteValue
      (linearCost (targetAmount.toNat + BaseFee.toNat * firstWrapped targetAmount - 2 ^ 64)
        BaseFee.toNat (firstWrapped targetAmount)) selected := by
  have hcost := wrappedCost_eq h hsub.length_le hwraps
  have hbound : noteCost targetAmount selected.length < 2 * 2 ^ 64 := by
    have htarget := targetAmount.toNat_lt
    have hfee := (computeFee selected.length 2).toNat_lt
    unfold noteCost
    omega
  rw [passes_iff_mod h hsub, Covers, hcost, Nat.add_mod_left, Nat.mod_eq_of_lt (by omega)]

theorem fits_of_covers (h : NotesFit notes) (hsub : selected.Subperm notes)
    (hcovers : CoversAmount targetAmount selected) :
    noteCost targetAmount selected.length < 2 ^ 64 :=
  (hcovers.trans (total_le_of_subperm hsub)).trans_lt h.total

theorem passes_of_covers (h : NotesFit notes) (hsub : selected.Subperm notes)
    (hcovers : CoversAmount targetAmount selected) : Passes targetAmount selected :=
  (passes_iff h hsub (fits_of_covers h hsub hcovers)).mpr hcovers

theorem covers_iff_linear (h : NotesFit notes) (hsub : selected.Subperm notes) :
    CoversAmount targetAmount selected ↔ Covers noteValue
      (linearCost (targetAmount.toNat + BaseFee.toNat * GraceActions) BaseFee.toNat GraceActions)
        selected := by
  unfold CoversAmount Covers
  rw [noteCost_eq h hsub.length_le]

theorem not_covers_nil : ¬ CoversAmount targetAmount [] := by
  have hfee : (computeFee 0 2).toNat = 10000 := rfl
  unfold CoversAmount Covers noteCost
  rw [List.length_nil, hfee, total_nil]
  omega

/-! ## Which attempts matter -/

theorem take_subperm (k : Nat) (notes : List FoundNote) :
    ((smallestFirst notes).take k).Subperm notes :=
  (List.take_sublist _ _).subperm.trans (perm_smallestFirst notes).subperm

theorem largest_mem_attempts (hne : notes ≠ []) : (largestFirst notes).take 1 ∈ attempts notes := by
  cases hl : largestFirst notes with
  | nil => exact absurd (List.nil_perm.mp (hl ▸ perm_largestFirst notes)) hne
  | cons note rest =>
    have hnote : note ∈ largestFirst notes := hl ▸ List.mem_cons_self
    exact List.mem_append_left _ (List.mem_map.mpr ⟨note, hnote, rfl⟩)

theorem take_mem_attempts {k : Nat} (hne : notes ≠ []) (hk : 0 < k) :
    (smallestFirst notes).take k ∈ attempts notes := by
  have hpos := List.length_pos_iff.mpr hne
  have hlen := (perm_smallestFirst notes).length_eq
  refine List.mem_append_right _ (List.mem_map.mpr ⟨min k notes.length - 1, ?_, ?_⟩)
  · rw [List.mem_range]
    omega
  · rw [Nat.sub_add_cancel (by omega), ← hlen, ← List.take_eq_take_min]

theorem attempt_cases (h : selected ∈ attempts notes) :
    (∃ note ∈ notes, selected = [note]) ∨
      ∃ k ≤ notes.length, selected = (smallestFirst notes).take k := by
  rcases List.mem_append.mp h with h | h
  · obtain ⟨note, hnote, rfl⟩ := List.mem_map.mp h
    exact .inl ⟨note, (perm_largestFirst notes).mem_iff.mp hnote, rfl⟩
  · obtain ⟨k, hk, rfl⟩ := List.mem_map.mp h
    exact .inr ⟨k + 1, List.mem_range.mp hk, rfl⟩

/-- The shorter attempts come first. -/
theorem pairwise_attempts (notes : List FoundNote) :
    (attempts notes).Pairwise fun a b => a.length ≤ b.length := by
  have hlen := (perm_smallestFirst notes).length_eq
  refine List.pairwise_append.mpr ⟨?_, ?_, ?_⟩
  · rw [List.pairwise_map]
    exact List.pairwise_of_forall fun _ _ => Nat.le_refl 1
  · rw [List.pairwise_map]
    refine List.pairwise_lt_range.imp fun hlt => ?_
    rw [List.length_take, List.length_take]
    omega
  · intro a ha b hb
    obtain ⟨note, -, rfl⟩ := List.mem_map.mp ha
    obtain ⟨k, hk, rfl⟩ := List.mem_map.mp hb
    rw [List.mem_range] at hk
    rw [List.length_singleton, List.length_take]
    omega

theorem reached_of_attempt (h : NotesFit notes) (hmem : selected ∈ attempts notes)
    (hcovers : CoversAmount targetAmount selected) : Reached notes targetAmount := by
  have hfits := fits_of_covers h (subperm_of_attempt hmem) hcovers
  rcases attempt_cases hmem with ⟨note, hnote, rfl⟩ | ⟨k, hk, rfl⟩
  · have hone := covers_largest (List.singleton_sublist.mpr hnote).subperm hcovers
    rw [List.length_singleton] at hone
    exact .inl hone
  · right
    have hlen : ((smallestFirst notes).take k).length = k := by
      rw [List.length_take, (perm_smallestFirst notes).length_eq, Nat.min_eq_left hk]
    -- so many notes do not wrap, so they are among those that count
    rw [← not_le, hlen, wraps_iff h hk, not_le] at hfits
    have hpayable : max 2 k ≤ payable targetAmount := by
      rw [firstWrapped, graceActions_eq] at hfits
      omega
    have htake : ∀ j ≤ payable targetAmount, (smallestFirst notes).take j =
        ((smallestFirst notes).take (payable targetAmount)).take j := by
      intro j hj
      rw [List.take_take, Nat.min_eq_left hj]
    have hascending : Ascending noteValue ((smallestFirst notes).take (payable targetAmount)) :=
      (ascending_smallestFirst notes).sublist (List.take_sublist _ _)
    rw [covers_iff_linear h (take_subperm k notes), htake k (by omega)] at hcovers
    rw [covers_iff_linear h (take_subperm 2 notes), covers_iff_linear h (take_subperm _ notes),
      htake 2 (by omega)]
    refine ends_cover (k := k) hascending ?_ hcovers
    rw [List.length_take, (perm_smallestFirst notes).length_eq]
    omega

theorem Reached.exists_attempt (hreached : Reached notes targetAmount) :
    ∃ selected ∈ attempts notes, CoversAmount targetAmount selected := by
  have hne : notes ≠ [] := by
    rintro rfl
    simp only [Reached, largestFirst_nil, smallestFirst_nil, List.take_nil, or_self] at hreached
    exact not_covers_nil hreached
  rcases hreached with h | h | h
  · exact ⟨_, largest_mem_attempts hne, h⟩
  · exact ⟨_, take_mem_attempts hne (by decide), h⟩
  · refine ⟨_, take_mem_attempts hne (Nat.pos_of_ne_zero ?_), h⟩
    intro hzero
    rw [hzero, List.take_zero] at h
    exact not_covers_nil h

/-- An attempt that passes and covers nothing is no better than one of the ends. -/
theorem passesAtAnEnd (h : NotesFit notes) (hmem : selected ∈ attempts notes)
    (hpass : Passes targetAmount selected) (hnot : ¬ CoversAmount targetAmount selected) :
    PassesAtAnEnd notes targetAmount := by
  have hsub := subperm_of_attempt hmem
  have hwraps : firstWrapped targetAmount ≤ max GraceActions selected.length := by
    rw [← wraps_iff h hsub.length_le]
    by_contra hfits
    exact hnot ((passes_iff h hsub (not_le.mp hfits)).mp hpass)
  have hlen := (perm_smallestFirst notes).length_eq
  have hlength := hsub.length_le
  rw [graceActions_eq] at hwraps
  rw [passes_iff_wrapped h hsub hwraps] at hpass
  rcases attempt_cases hmem with ⟨note, hnote, rfl⟩ | ⟨k, hk, rfl⟩
  · left
    have hone := (perm_largestFirst notes).length_eq
    rw [List.length_singleton] at hwraps hlength
    have hfirst := (List.take_sublist 1 (largestFirst notes)).subperm.trans
      (perm_largestFirst notes).subperm
    rw [passes_iff_wrapped h hfirst]
    · exact covers_take (descending_largestFirst notes)
        (hsub.trans (perm_largestFirst notes).symm.subperm) hpass
    · rw [graceActions_eq, List.length_take]
      omega
  · right
    rw [List.length_take, hlen, Nat.min_eq_left hk] at hwraps
    rw [passes_iff_wrapped h (take_subperm _ notes),
      passes_iff_wrapped h (perm_smallestFirst notes).subperm]
    · exact ends_cover (ascending_smallestFirst notes) (by omega) hpass
    · rw [graceActions_eq, hlen]
      omega
    · rw [graceActions_eq, List.length_take, hlen]
      omega

theorem exists_covers_iff (h : NotesFit notes) :
    (∃ k, CoversAmount targetAmount ((largestFirst notes).take k)) ↔
      CoversAmount targetAmount (bestChoice notes) := by
  have hperm := (perm_largestFirst notes).subperm
  have hbest : (bestChoice notes).Subperm notes := worthwhile_sublist.subperm.trans hperm
  constructor
  · rintro ⟨k, hk⟩
    have hsub := (List.take_sublist k (largestFirst notes)).subperm
    rw [covers_iff_linear h (hsub.trans hperm)] at hk
    rw [covers_iff_linear h hbest]
    exact worthwhile_covers (descending_largestFirst notes) hsub hk
  · intro hcovers
    exact ⟨_, covers_largest hbest hcovers⟩

theorem Reached.firstPassCovers (h : NotesFit notes) (hreached : Reached notes targetAmount) :
    FirstPassCovers notes targetAmount := by
  intro before selected after hsplit hbefore hpass
  obtain ⟨found, hfound, hcovers⟩ := hreached.exists_attempt
  have hsub := subperm_of_attempt hfound
  have hmem : selected ∈ attempts notes := hsplit ▸ List.mem_append_right _ List.mem_cons_self
  by_contra hnot
  -- what covers is not tried before, so it is no shorter and its sum would wrap too
  have hlen : selected.length ≤ found.length := by
    have hpair := hsplit ▸ pairwise_attempts notes
    rw [hsplit] at hfound
    rcases List.mem_append.mp hfound with hin | hin
    · exact absurd (passes_of_covers h hsub hcovers) (hbefore found hin)
    rcases List.mem_cons.mp hin with rfl | hin
    · exact absurd hcovers hnot
    · exact (List.pairwise_cons.mp (List.pairwise_append.mp hpair).2.1).1 found hin
  refine hnot ((passes_iff h (subperm_of_attempt hmem) ?_).mp hpass)
  have hfits := fits_of_covers h hsub hcovers
  rw [← not_le, wraps_iff h hsub.length_le] at hfits
  rw [← not_le, wraps_iff h (subperm_of_attempt hmem).length_le]
  exact fun hwraps => hfits (hwraps.trans (max_le_max_left _ hlen))

/-- If any attempt passes, the first one that does reaches the amount. -/
theorem FirstPassCovers.reached (h : NotesFit notes) (hfirst : FirstPassCovers notes targetAmount)
    (hmem : selected ∈ attempts notes) (hpass : Passes targetAmount selected) :
    Reached notes targetAmount := by
  obtain ⟨found, hfind⟩ : ∃ found, (attempts notes).find?
      (fun tried => Passes targetAmount tried) = some found := by
    rw [← Option.isSome_iff_exists, List.find?_isSome]
    exact ⟨selected, hmem, decide_eq_true hpass⟩
  obtain ⟨hfound, before, after, hsplit, hbefore⟩ := List.find?_eq_some_iff_append.mp hfind
  refine reached_of_attempt h (List.mem_of_find?_eq_some hfind) ?_
  refine hfirst before found after hsplit (fun tried htried hp => ?_) (of_decide_eq_true hfound)
  simpa [hp] using hbefore tried htried

theorem PassesAtAnEnd.exists_attempt (hne : notes ≠ []) (h : PassesAtAnEnd notes targetAmount) :
    ∃ selected ∈ attempts notes, Passes targetAmount selected := by
  rcases h with hpass | hpass | hpass
  · exact ⟨_, largest_mem_attempts hne, hpass⟩
  · exact ⟨_, take_mem_attempts hne (lt_of_lt_of_le (by decide) (le_max_left _ _)), hpass⟩
  · have hmem := take_mem_attempts hne (List.length_pos_iff.mpr hne)
    rw [← (perm_smallestFirst notes).length_eq, List.take_length] at hmem
    exact ⟨_, hmem, hpass⟩

theorem selectsExactly_iff_of_fit (h : NotesFit notes) :
    SelectsExactly notes targetAmount ↔ notes = [] ∨ Reached notes targetAmount ∨
      ¬ CoversAmount targetAmount (bestChoice notes) ∧ ¬ PassesAtAnEnd notes targetAmount := by
  rw [selectsExactly_iff]
  constructor
  · rintro ⟨hfirst, hfinds⟩
    by_cases hne : notes = []
    · exact .inl hne
    by_cases hreached : Reached notes targetAmount
    · exact .inr (.inl hreached)
    -- nothing that is tried reaches the amount, so nothing may pass
    have hnone : ¬ ∃ selected ∈ attempts notes, Passes targetAmount selected := by
      rintro ⟨selected, hmem, hpass⟩
      exact hreached (hfirst.reached h hmem hpass)
    refine .inr (.inr ⟨?_, fun hends => hnone (hends.exists_attempt hne)⟩)
    rw [← exists_covers_iff h]
    rintro ⟨k, hk⟩
    exact hnone (hfinds k hk)
  · rintro (rfl | hreached | ⟨hbest, hends⟩)
    · constructor
      · intro before selected after hsplit
        simp at hsplit
      · intro k hk
        rw [largestFirst_nil, List.take_nil] at hk
        exact absurd hk not_covers_nil
    · refine ⟨hreached.firstPassCovers h, fun k _ => ?_⟩
      obtain ⟨selected, hmem, hcovers⟩ := hreached.exists_attempt
      exact ⟨selected, hmem, passes_of_covers h (subperm_of_attempt hmem) hcovers⟩
    · constructor
      · intro before selected after hsplit _ hpass
        have hmem : selected ∈ attempts notes := hsplit ▸ List.mem_append_right _ List.mem_cons_self
        by_contra hnot
        exact hends (passesAtAnEnd h hmem hpass hnot)
      · intro k hk
        exact absurd ((exists_covers_iff h).mp ⟨k, hk⟩) hbest

/-- Where the amount fits with the fee of all notes too, the most that can be paid is all. -/
theorem NoSumWraps.payable_le (h : NoSumWraps notes targetAmount) :
    notes.length ≤ payable targetAmount := by
  have hcost := h.cost
  rw [toNat_baseFee, graceActions_eq] at hcost
  rw [payable, toNat_baseFee]
  omega

theorem selectsExactly_iff_of_noSumWraps (h : NoSumWraps notes targetAmount) :
    SelectsExactly notes targetAmount ↔
      (CoversAmount targetAmount (bestChoice notes) →
        CoversAmount targetAmount ((largestFirst notes).take 1) ∨
          CoversAmount targetAmount ((smallestFirst notes).take 2) ∨
            CoversAmount targetAmount (smallestFirst notes)) := by
  have hlen := (perm_smallestFirst notes).length_eq
  have hall : ∀ k, notes.length ≤ k → (smallestFirst notes).take k = smallestFirst notes := by
    intro k hk
    exact List.take_of_length_le (hlen.trans_le hk)
  have hfits : ∀ {selected}, selected.Subperm notes →
      (Passes targetAmount selected ↔ CoversAmount targetAmount selected) := by
    intro selected hsub
    refine passes_iff h.notesFit hsub ?_
    have hcost := h.cost
    have hlength := hsub.length_le
    rw [toNat_baseFee, graceActions_eq] at hcost
    rw [noteCost_eq h.notesFit hlength, linearCost, toNat_baseFee, graceActions_eq]
    omega
  have hlargest := (List.take_sublist 1 (largestFirst notes)).subperm.trans
    (perm_largestFirst notes).subperm
  have hnext : notes.length ≤ firstWrapped targetAmount :=
    h.payable_le.trans ((Nat.le_succ _).trans (le_max_right _ _))
  rw [selectsExactly_iff_of_fit h.notesFit, Reached, PassesAtAnEnd, hall _ h.payable_le,
    hall _ hnext, hfits hlargest, hfits (perm_smallestFirst notes).subperm, or_self]
  constructor
  · rintro (rfl | hreached | ⟨hbest, -⟩) hcovers
    · rw [bestChoice_nil] at hcovers
      exact absurd hcovers not_covers_nil
    · exact hreached
    · exact absurd hcovers hbest
  · intro hfinds
    by_cases hreached : CoversAmount targetAmount ((largestFirst notes).take 1) ∨
        CoversAmount targetAmount ((smallestFirst notes).take 2) ∨
          CoversAmount targetAmount (smallestFirst notes)
    · exact .inr (.inl hreached)
    · refine .inr (.inr ⟨fun hbest => hreached (hfinds hbest), ?_⟩)
      rintro (hone | hends)
      · exact hreached (.inl hone)
      · exact hreached (.inr (.inr hends))

/-- A selection is exact exactly if its first attempt that passes reaches the amount, and an
attempt passes whenever some of the largest notes reach it. Where no sum wraps, that is if the
largest note, the two smallest or all notes reach the amount whenever the best choice does. Where
only the amount may wrap with its fee, a few choices decide it too. -/
theorem selectNotes_exact_iff (notes : List FoundNote) (targetAmount : UInt64) :
    (SelectsExactly notes targetAmount ↔
      FirstPassCovers notes targetAmount ∧ FindsWhatCovers notes targetAmount) ∧
    (NoSumWraps notes targetAmount → (SelectsExactly notes targetAmount ↔
      (CoversAmount targetAmount (bestChoice notes) →
        CoversAmount targetAmount ((largestFirst notes).take 1) ∨
          CoversAmount targetAmount ((smallestFirst notes).take 2) ∨
            CoversAmount targetAmount (smallestFirst notes)))) ∧
    (NotesFit notes → (SelectsExactly notes targetAmount ↔
      notes = [] ∨ Reached notes targetAmount ∨
        ¬ CoversAmount targetAmount (bestChoice notes) ∧ ¬ PassesAtAnEnd notes targetAmount)) :=
  ⟨selectsExactly_iff notes targetAmount, selectsExactly_iff_of_noSumWraps,
    selectsExactly_iff_of_fit⟩

def sampleNote (value : UInt64) : FoundNote := ⟨0, [], 0, value, 0⟩

/-- Three notes of no worth come before the two that would do, and an amount that wraps with its
fee is taken for a small one. -/
theorem not_selectsExactly_samples :
    ¬ SelectsExactly (([1, 1, 1, 30000, 30000] : List UInt64).map sampleNote) 45000 ∧
    ¬ SelectsExactly [sampleNote 10000] (2 ^ 64 - 1) := by
  constructor
  · intro h
    have hsingle : (largestFirst (([1, 1, 1, 30000, 30000] : List UInt64).map sampleNote)).find?
        (fun note => note.value ≥ 45000 + computeFee 1 2) = none := by
      rw [List.find?_eq_none]
      intro note hnote
      rw [(perm_largestFirst _).mem_iff] at hnote
      revert note
      decide
    have hsorted : smallestFirst (([1, 1, 1, 30000, 30000] : List UInt64).map sampleNote) =
        ([1, 1, 1, 30000, 30000] : List UInt64).map sampleNote :=
      List.mergeSort_of_pairwise (by decide)
    refine h.complete ?_ [sampleNote 30000, sampleNote 30000] (by decide) (by decide)
    unfold largestFirst at hsingle
    unfold smallestFirst at hsorted
    rw [selectNotes, hsingle, hsorted]
    decide
  · intro h
    have hsome : selectNotes [sampleNote 10000] (2 ^ 64 - 1) = some [sampleNote 10000] := by
      decide +kernel
    exact absurd (h.sound _ hsome).2 (by decide +kernel)

/-- Two notes that will do together, and a note one short of what the wrapped amount asks for. -/
theorem selectNotes_exact_sample :
    SelectsExactly (([8000, 10000] : List UInt64).map sampleNote) 5000 ∧
    SelectsExactly [sampleNote 9998] (2 ^ 64 - 1) := by
  constructor
  · refine ((selectNotes_exact_iff _ 5000).2.1 ⟨by decide, by decide⟩).mpr fun _ => .inr (.inr ?_)
    rw [smallestFirst, List.mergeSort_of_pairwise (by decide)]
    decide
  · refine ((selectNotes_exact_iff _ _).2.2 ⟨by decide, by decide⟩).mpr (.inr (.inr ⟨?_, ?_⟩))
    · rw [bestChoice, largestFirst, List.mergeSort_singleton]
      decide +kernel
    · rw [PassesAtAnEnd, largestFirst, smallestFirst, List.mergeSort_singleton,
        List.mergeSort_singleton]
      decide +kernel

end SpentMarks.Frozt
