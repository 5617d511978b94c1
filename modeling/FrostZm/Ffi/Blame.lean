import FrostZm.Ceremony.Dkg
import FrostZm.Ceremony.ReferenceDeal

/-!
# The last blamed party

Every thread has a slot for the party that a failed call on it accused. Reading the slot is a
call of its own, and clears it.
-/

set_option linter.unusedSectionVars false

variable {F G Rng : Type} [Field F] [DecidableEq F] [Ord F] [Std.TransOrd F] [Std.LawfulEqOrd F]
  [AddCommGroup G] [Module F G]

namespace Blame

abbrev Thread := Nat

/-- `LAST_BLAMED_ID` of each thread. -/
abbrev Slots := Thread → UInt16

def setBlamedParty (slots : Slots) (thread : Thread) (id : UInt16) : Slots :=
  Function.update slots thread id

def takeBlamedParty (slots : Slots) (thread : Thread) : UInt16 × Slots :=
  (slots thread, Function.update slots thread 0)

/-- The calls into the library. Of an operation only the frost-core error counts that it meets,
with the code it would return otherwise, and the thread on which it meets it. -/
inductive Call (F : Type) [Zero F] where
  | operation (thread : Thread) (error : Option (FrostError F)) (default : LibError)
  | lastBlamedParty (thread : Thread)

variable (core : FrostCore F G Rng)

def step (slots : Slots) : Call F → Slots
  | .operation thread error default =>
    match error with
    | none => slots
    | some err =>
      match (Ceremony.frostErrToBlame core err default).blamed with
      | none => slots
      | some id => setBlamedParty slots thread id
  | .lastBlamedParty thread => (takeBlamedParty slots thread).2

def run (calls : List (Call F)) : Slots := calls.foldl (step core) fun _ => 0

/-! ## Whom an error accuses -/

/-- The culprit of the error is the participant with this number. -/
def Names (error : Option (FrostError F)) (id : UInt16) : Prop :=
  ∃ err ident, error = some err ∧ err.culprit = some ident ∧ Identifier.tryFrom id = some ident

/-- The participant is reported exactly if the error names it; zero reports nobody. -/
def Exact (value : UInt16) (error : Option (FrostError F)) : Prop :=
  ∀ id, id ≠ 0 → (value = id ↔ Names error id)

variable {core} (doc : core.Documented)
include doc

theorem Names.ne_zero {error : Option (FrostError F)} {id : UInt16} (h : Names error id) :
    id ≠ 0 := by
  obtain ⟨-, ident, -, -, hid⟩ := h
  exact doc.ne_zero_of_tryFrom hid

theorem Names.unique {error : Option (FrostError F)} {id id' : UInt16} (h : Names error id)
    (h' : Names error id') : id = id' := by
  obtain ⟨err, ident, rfl, hculprit, hid⟩ := h
  obtain ⟨err', ident', herr, hculprit', hid'⟩ := h'
  obtain rfl := Option.some.inj herr
  rw [hculprit] at hculprit'
  obtain rfl := Option.some.inj hculprit'
  exact doc.tryFrom_inj hid hid'

theorem searchIdentifier_of_mem {id : UInt16} {ident : Identifier F}
    (hid : Identifier.tryFrom id = some ident) {l : List UInt16} (hl : ∀ j ∈ l, j ≠ 0)
    (hmem : id ∈ l) :
    Ceremony.searchIdentifier core (core.serializeIdentifier ident) l = some id := by
  induction l with
  | nil => simp at hmem
  | cons j l ih =>
    rw [List.forall_mem_cons] at hl
    obtain ⟨candidate, hj⟩ := doc.exists_tryFrom hl.1
    unfold Ceremony.searchIdentifier
    rw [hj]
    simp only
    split
    · next hser =>
      rw [doc.identifier_injective _ _ hser] at hj
      rw [doc.tryFrom_inj hj hid]
    · next hser =>
      apply ih hl.2
      rcases List.mem_cons.mp hmem with rfl | hmem
      · rw [hj] at hid
        exact absurd (congrArg core.serializeIdentifier (Option.some.inj hid)) hser
      · exact hmem

theorem searchIdentifier_some {id : UInt16} {ident : Identifier F} {l : List UInt16}
    (h : Ceremony.searchIdentifier core (core.serializeIdentifier ident) l = some id) :
    id ∈ l ∧ Identifier.tryFrom id = some ident := by
  induction l with
  | nil => simp [Ceremony.searchIdentifier] at h
  | cons j l ih =>
    unfold Ceremony.searchIdentifier at h
    split at h
    · simp at h
    · next candidate hj =>
      split at h
      · next hser =>
        obtain rfl := Option.some.inj h
        rw [doc.identifier_injective _ _ hser] at hj
        exact ⟨List.mem_cons_self, hj⟩
      · exact ⟨List.mem_cons_of_mem _ (ih h).1, (ih h).2⟩

omit doc in
theorem mem_candidates {id : UInt16} :
    id ∈ (List.range 256).map (fun i => UInt16.ofNat (i + 1)) ↔ id ≠ 0 ∧ id ≤ 256 := by
  rw [List.mem_map, ne_eq, ← UInt16.toNat_inj, UInt16.le_iff_toNat_le]
  simp only [List.mem_range, UInt16.toNat_ofNat]
  constructor
  · rintro ⟨i, hi, rfl⟩
    rw [UInt16.toNat_ofNat']
    omega
  · rintro ⟨hne, hle⟩
    refine ⟨id.toNat - 1, by omega, ?_⟩
    rw [Nat.sub_add_cancel (by omega), UInt16.ofNat_toNat]

theorem identifierToU16_iff {id : UInt16} {ident : Identifier F} :
    Ceremony.identifierToU16 core ident = some id ↔
      Identifier.tryFrom id = some ident ∧ id ≤ 256 := by
  unfold Ceremony.identifierToU16
  constructor
  · intro h
    obtain ⟨hmem, hid⟩ := searchIdentifier_some doc h
    exact ⟨hid, (mem_candidates.mp hmem).2⟩
  · rintro ⟨hid, hle⟩
    apply searchIdentifier_of_mem doc hid
    · intro j hj
      exact (mem_candidates.mp hj).1
    · exact mem_candidates.mpr ⟨doc.ne_zero_of_tryFrom hid, hle⟩

theorem step_operation (slots : Slots) (thread : Thread) (error : Option (FrostError F))
    (default : LibError) :
    (∃ id, Names error id ∧ id ≤ 256 ∧
      step core slots (.operation thread error default) = setBlamedParty slots thread id) ∨
    (∀ id, Names error id → ¬ id ≤ 256) ∧ step core slots (.operation thread error default) = slots := by
  cases error with
  | none =>
    right
    refine ⟨?_, rfl⟩
    rintro id ⟨err, ident, herr, -⟩
    nomatch herr
  | some err =>
    rcases hculprit : err.culprit with - | ident
    · right
      constructor
      · rintro id ⟨err', ident, herr, hculprit', -⟩
        obtain rfl := Option.some.inj herr
        rw [hculprit] at hculprit'
        nomatch hculprit'
      · simp only [step, Ceremony.frostErrToBlame, hculprit]
    · rcases hfound : Ceremony.identifierToU16 core ident with - | id
      · right
        constructor
        · rintro id ⟨err', ident', herr, hculprit', hid⟩ hle
          obtain rfl := Option.some.inj herr
          rw [hculprit] at hculprit'
          obtain rfl := Option.some.inj hculprit'
          rw [(identifierToU16_iff doc).mpr ⟨hid, hle⟩] at hfound
          nomatch hfound
        · simp only [step, Ceremony.frostErrToBlame, hculprit, hfound]
      · left
        obtain ⟨hid, hle⟩ := (identifierToU16_iff doc).mp hfound
        refine ⟨id, ⟨err, ident, rfl, hculprit, hid⟩, hle, ?_⟩
        simp only [step, Ceremony.frostErrToBlame, hculprit, hfound]

/-! ## Runs -/

theorem step_le {slots : Slots} (h : ∀ t, slots t ≤ 256) (call : Call F) (t : Thread) :
    step core slots call t ≤ 256 := by
  cases call with
  | operation thread error default =>
    rcases step_operation doc slots thread error default with ⟨id, -, hle, hstep⟩ | ⟨-, hstep⟩
    · rw [hstep, setBlamedParty, Function.update_apply]
      split
      · exact hle
      · exact h t
    · rw [hstep]
      exact h t
  | lastBlamedParty thread =>
    simp only [step, takeBlamedParty, Function.update_apply]
    split
    · exact UInt16.zero_le
    · exact h t

theorem run_le (calls : List (Call F)) (t : Thread) : run core calls t ≤ 256 := by
  induction calls using List.reverseRecOn generalizing t with
  | nil => exact UInt16.zero_le
  | append_singleton calls call ih =>
    unfold run at ih ⊢
    rw [List.foldl_append]
    exact step_le doc ih call t

omit doc in
/-- The blame can be read after the operation: its culprit is one of those that are found, and
the reader has the operation's thread or finds the same party in its slot. After an error that
accuses no participant the slot of the reader is empty. -/
structure Attributable (slots : Slots) (thread reader : Thread) (error : Option (FrostError F)) :
    Prop where
  named : ∀ id, Names error id → id ≤ 256 ∧ (reader = thread ∨ slots reader = id)
  unnamed : (∀ id, ¬ Names error id) → slots reader = 0

theorem exact_step_iff {slots : Slots} (hslots : ∀ t, slots t ≤ 256) (thread reader : Thread)
    (error : Option (FrostError F)) (default : LibError) :
    Exact (takeBlamedParty (step core slots (.operation thread error default)) reader).1 error ↔
      Attributable slots thread reader error := by
  unfold Exact takeBlamedParty
  rcases step_operation doc slots thread error default with ⟨id, hid, hle, hstep⟩ | ⟨hlarge, hstep⟩
  · rw [hstep, setBlamedParty]
    simp only [Function.update_apply]
    constructor
    · intro hexact
      refine ⟨fun id' hid' => ?_, fun hnone => absurd hid (hnone id)⟩
      obtain rfl := hid.unique doc hid'
      refine ⟨hle, ?_⟩
      by_cases hreader : reader = thread
      · exact .inl hreader
      · have hread := (hexact id (hid.ne_zero doc)).mpr hid
        rw [if_neg hreader] at hread
        exact .inr hread
    · intro hattr id' _
      have hread : (if reader = thread then id else slots reader) = id := by
        split
        · rfl
        · next hreader => exact (hattr.named id hid).2.resolve_left hreader
      rw [hread]
      constructor
      · rintro rfl
        exact hid
      · exact hid.unique doc
  · rw [hstep]
    simp only
    constructor
    · intro hexact
      have hnone : ∀ id, ¬ Names error id := by
        intro id hid
        have hread := (hexact id (hid.ne_zero doc)).mpr hid
        exact hlarge id hid (hread ▸ hslots reader)
      refine ⟨fun id hid => absurd hid (hnone id), fun _ => ?_⟩
      by_contra hne
      exact hnone _ ((hexact (slots reader) hne).mp rfl)
    · intro hattr id hne
      have hnone : ∀ id, ¬ Names error id := fun id hid => hlarge id hid (hattr.named id hid).1
      rw [hattr.unnamed hnone]
      constructor
      · intro h
        exact absurd h.symm hne
      · intro hid
        exact absurd hid (hnone id)

/-- Every read right after an operation reports the culprit of this operation, in every run in
which every such read can be attributed. -/
theorem reads_exact_iff (calls : List (Call F)) :
    (∀ before thread error default reader after,
      calls = before ++ .operation thread error default :: .lastBlamedParty reader :: after →
      Exact (takeBlamedParty (run core (before ++ [.operation thread error default])) reader).1
        error) ↔
    ∀ before thread error default reader after,
      calls = before ++ .operation thread error default :: .lastBlamedParty reader :: after →
      Attributable (run core before) thread reader error := by
  have hiff : ∀ before thread error default reader,
      Exact (takeBlamedParty (run core (before ++ [.operation thread error default])) reader).1 error ↔
        Attributable (run core before) thread reader error := by
    intro before thread error default reader
    have hrun : run core (before ++ [.operation thread error default]) =
        step core (run core before) (.operation thread error default) := by
      unfold run
      rw [List.foldl_append]
      rfl
    rw [hrun]
    exact exact_step_iff doc (run_le doc before) thread reader error default
  constructor
  · intro h before thread error default reader after hcalls
    exact (hiff ..).mp (h before thread error default reader after hcalls)
  · intro h before thread error default reader after hcalls
    exact (hiff ..).mpr (h before thread error default reader after hcalls)

end Blame

/-! ## Two short runs -/

namespace Blame

open Reference

/-- The error of an operation that participant `p` spoils. -/
def sampleError (p : UInt16) : FrostError Scalar := ⟨some (sampleIdent p)⟩

theorem names_sample {p : UInt16} (hp : p ≠ 0) : Names (some (sampleError p)) p := by
  obtain ⟨ident, hident⟩ := documented.exists_tryFrom hp
  refine ⟨_, _, rfl, rfl, ?_⟩
  rw [sampleIdent, hident, Option.getD_some]

/-- A blame that nobody read is reported after an operation that succeeds. -/
theorem stale_blame_read :
    (takeBlamedParty (run Reference.core [.operation 0 (some (sampleError 3)) .dkgError,
      .operation 0 none .dkgError]) 0).1 = 3 ∧
    ¬ Exact (takeBlamedParty (run Reference.core [.operation 0 (some (sampleError 3)) .dkgError,
      .operation 0 none .dkgError]) 0).1 (none : Option (FrostError Scalar)) := by
  have hread : (takeBlamedParty (run Reference.core [.operation 0 (some (sampleError 3)) .dkgError,
      .operation 0 none .dkgError]) 0).1 = 3 := by decide +kernel
  refine ⟨hread, fun hexact => ?_⟩
  obtain ⟨err, -, herr, -⟩ := (hexact 3 (by decide)).mp hread
  nomatch herr

/-- Participant 3 is reported on the thread of the operation that it spoiled. -/
theorem reads_exact_sample : Exact (takeBlamedParty (run Reference.core
    [.operation 0 (some (sampleError 3)) .dkgError]) 0).1 (some (sampleError 3)) := by
  refine (reads_exact_iff documented [.operation 0 (some (sampleError 3)) .dkgError,
    .lastBlamedParty 0]).mpr ?_ [] 0 _ .dkgError 0 [] rfl
  intro before thread error default reader after hcalls
  have hlen := congrArg List.length hcalls
  simp only [List.length_cons, List.length_nil, List.length_append] at hlen
  obtain rfl := List.length_eq_zero_iff.mp (show before.length = 0 by omega)
  simp only [List.nil_append, List.cons.injEq, Call.operation.injEq, Call.lastBlamedParty.injEq] at hcalls
  obtain ⟨⟨rfl, rfl, rfl⟩, rfl, -⟩ := hcalls
  constructor
  · intro id hid
    obtain rfl := hid.unique documented (names_sample (by decide))
    exact ⟨by decide, .inl rfl⟩
  · intro hnone
    exact absurd (names_sample (by decide)) (hnone 3)

end Blame
