import FrostZm.Client.Relay
import Mathlib

/-!
# Marks on spent notes

Both clients keep a file of what they spent. It is read, extended and written back as a whole,
and an error in reading it is taken for an empty file. Reads and writes may fail at any time.
-/

namespace SpentMarks

/-- What a read of a file brings: what is there, an error, or bytes that do not decode. -/
inductive Read where
  | intact
  | failed
  | garbled (data : Bytes)
deriving DecidableEq

/-- A write that fails may leave the file as it was, or with other bytes in it. -/
inductive Write where
  | ok
  | failed
  | torn (data : Bytes)
deriving DecidableEq

/-! ## The notes of the Zcash client -/

namespace Frozt

structure SpentNote where
  txHash : GoString
  index : Int
  height : UInt64
deriving DecidableEq

/-- `spent_notes.json`. The bytes of a list decode to that list. -/
inductive File where
  | missing
  | notes (l : List SpentNote)
  | damaged
deriving DecidableEq

/-- `LoadSpentNotes`, without its error: the callers ignore it. -/
def loadSpentNotes (file : File) : Read → List SpentNote
  | .failed => []
  | .garbled _ => []
  | .intact =>
    match file with
    | .missing => []
    | .notes l => l
    | .damaged => []

/-- The new file, and whether the call returns without an error. -/
def markNoteSpent (file : File) (txHash : Bytes) (index : Int) (height : UInt64) (read : Read)
    (write : Write) : Bool × File :=
  let spent := loadSpentNotes file read ++ [⟨Relay.hexEncode txHash, index, height⟩]
  match write with
  | .ok => (true, .notes spent)
  | .failed => (false, file)
  | .torn _ => (false, .damaged)

def isNoteSpent (file : File) (txHash : Bytes) (index : Int) (read : Read) : Bool :=
  (loadSpentNotes file read).any fun s => s.txHash = Relay.hexEncode txHash ∧ s.index = index

/-! ## Preparing a transaction -/

structure FoundNote where
  height : UInt64
  txHash : Bytes
  index : Int
  value : UInt64
  position : UInt64
deriving DecidableEq

def BaseFee : UInt64 := 5000
def GraceActions : Nat := 2

def computeFee (nSpends nOutputs : Nat) : UInt64 :=
  UInt64.ofNat (max GraceActions (max nSpends nOutputs)) * BaseFee

/-- The loop of `selectNotes` over the notes in ascending order. -/
def accumulate (targetAmount : UInt64) (selected : List FoundNote) (total : UInt64) :
    List FoundNote → Option (List FoundNote)
  | [] => none
  | note :: rest =>
    let selected := selected ++ [note]
    let total := total + note.value
    if total ≥ targetAmount + computeFee selected.length 2 then some selected
    else accumulate targetAmount selected total rest

def selectNotes (notes : List FoundNote) (targetAmount : UInt64) : Option (List FoundNote) :=
  match (notes.mergeSort fun a b => a.value ≥ b.value).find? fun note =>
      note.value ≥ targetAmount + computeFee 1 2 with
  | some note => some [note]
  | none => accumulate targetAmount [] 0 (notes.mergeSort fun a b => a.value ≤ b.value)

/-- What the chain shows: the notes found, the nullifier of each if its full ciphertext can be
fetched and decrypted, and the nullifiers of the spends. -/
structure Scan where
  notes : List FoundNote
  nullifier : FoundNote → Option Bytes
  spentNullifiers : List Bytes

def Scan.unspent (scan : Scan) : List FoundNote :=
  scan.notes.filter fun note =>
    match scan.nullifier note with
    | none => false
    | some nf => nf ∉ scan.spentNullifiers

/-- `PrepareTransaction` up to the notes that it selects. -/
def prepareTransaction (scan : Scan) (sendAmount : UInt64) : Option (List FoundNote) :=
  if sendAmount = 0 ∨ scan.notes = [] then none
  else
    match selectNotes scan.unspent sendAmount with
    | none => none
    | some selected =>
      if (selected.map FoundNote.value).sum < sendAmount + computeFee selected.length 2 then none
      else some selected

/-! ## Histories -/

/-- The steps of all calls on a keystore. A spend run prepares, and marks the notes that it
selected when the transaction is out. -/
inductive Event where
  | markNoteSpent (txHash : Bytes) (index : Int) (height : UInt64) (read : Read) (write : Write)
  | isNoteSpent (txHash : Bytes) (index : Int) (read : Read)
  | prepareTransaction (scan : Scan) (sendAmount : UInt64)

/-- The file, and the notes that were marked without an error. -/
structure State where
  file : File
  marked : List (Bytes × Int)

def State.init : State := ⟨.missing, []⟩

def step (st : State) : Event → State
  | .markNoteSpent txHash index height read write =>
    match SpentMarks.Frozt.markNoteSpent st.file txHash index height read write with
    | (true, file) => ⟨file, (txHash, index) :: st.marked⟩
    | (false, file) => { st with file }
  | .isNoteSpent _ _ _ => st
  | .prepareTransaction _ _ => st

def run (events : List Event) : State := events.foldl step .init

/-- The file names the note. -/
def Recorded (file : File) (note : Bytes × Int) : Prop :=
  ∃ l, file = .notes l ∧ ∃ s ∈ l, s.txHash = Relay.hexEncode note.1 ∧ s.index = note.2

/-- What the step must do with the marks: a save keeps them all, and a spend selects none. -/
def KeepsMarks (st : State) : Event → Prop
  | .markNoteSpent txHash index height read write =>
    write = .ok → ∀ note ∈ (txHash, index) :: st.marked,
      Recorded (step st (.markNoteSpent txHash index height read write)).file note
  | .isNoteSpent txHash index read =>
    read = .intact → st.file ≠ .damaged → (txHash, index) ∈ st.marked →
      Frozt.isNoteSpent st.file txHash index read = true
  | .prepareTransaction scan sendAmount =>
    ∀ selected, Frozt.prepareTransaction scan sendAmount = some selected →
      ∀ note ∈ selected, (note.txHash, note.index) ∉ st.marked

/-- A save reads back the file as it was last saved, unless there are no other marks to lose.
A marked note is not spendable any more by what the chain shows. -/
def Faultless (st : State) : Event → Prop
  | .markNoteSpent txHash index _ read write =>
    write = .ok → (read = .intact ∧ st.file ≠ .damaged) ∨ ∀ note ∈ st.marked, note = (txHash, index)
  | .isNoteSpent _ _ _ => True
  | .prepareTransaction scan _ =>
    ∀ note ∈ scan.notes, (note.txHash, note.index) ∈ st.marked →
      ∀ nf, scan.nullifier note = some nf → nf ∈ scan.spentNullifiers

/-! ## What a selection takes -/

theorem mem_of_accumulate {targetAmount total : UInt64} {selected notes out : List FoundNote}
    (h : accumulate targetAmount selected total notes = some out) :
    ∀ note ∈ out, note ∈ selected ∨ note ∈ notes := by
  induction notes generalizing selected total with
  | nil => nomatch h
  | cons first rest ih =>
    simp only [accumulate] at h
    intro note hnote
    have hmem : note ∈ selected ++ [first] ∨ note ∈ rest := by
      split at h
      · obtain rfl := Option.some.inj h
        exact .inl hnote
      · exact ih h note hnote
    rcases hmem with hmem | hmem
    · rcases List.mem_append.mp hmem with hold | hnew
      · exact .inl hold
      · rw [List.mem_singleton] at hnew
        subst hnew
        exact .inr List.mem_cons_self
    · exact .inr (List.mem_cons_of_mem _ hmem)

theorem mem_of_selectNotes {notes selected : List FoundNote} {targetAmount : UInt64}
    (h : selectNotes notes targetAmount = some selected) : ∀ note ∈ selected, note ∈ notes := by
  unfold selectNotes at h
  intro note hnote
  split at h
  · next found hfind =>
    obtain rfl := Option.some.inj h
    rw [List.mem_singleton] at hnote
    subst hnote
    exact List.mem_mergeSort.mp (List.mem_of_find?_eq_some hfind)
  · rcases mem_of_accumulate h note hnote with hnil | hmem
    · nomatch hnil
    · exact List.mem_mergeSort.mp hmem

theorem mem_of_prepareTransaction {scan : Scan} {sendAmount : UInt64} {selected : List FoundNote}
    (h : prepareTransaction scan sendAmount = some selected) {note : FoundNote}
    (hnote : note ∈ selected) :
    note ∈ scan.notes ∧ ∃ nf, scan.nullifier note = some nf ∧ nf ∉ scan.spentNullifiers := by
  unfold prepareTransaction at h
  split at h
  · nomatch h
  · split at h
    · nomatch h
    · next hselect =>
      split at h
      · nomatch h
      · obtain rfl := Option.some.inj h
        have hmem := mem_of_selectNotes hselect note hnote
        unfold Scan.unspent at hmem
        obtain ⟨hin, hunspent⟩ := List.mem_filter.mp hmem
        refine ⟨hin, ?_⟩
        split at hunspent
        · nomatch hunspent
        · next nf hnf => exact ⟨nf, hnf, of_decide_eq_true hunspent⟩

/-! ## Runs -/

/-- Unless the file is damaged, it names every note that was marked. -/
def Inv (st : State) : Prop := st.file = .damaged ∨ ∀ note ∈ st.marked, Recorded st.file note

theorem recorded_loaded {file : File} {note : Bytes × Int} (h : Recorded file note) {read : Read}
    (hread : read = .intact) :
    ∃ s ∈ loadSpentNotes file read, s.txHash = Relay.hexEncode note.1 ∧ s.index = note.2 := by
  obtain ⟨l, rfl, s, hs, hnote⟩ := h
  subst hread
  exact ⟨s, hs, hnote⟩

theorem keepsMarks_of_faultless {st : State} (hi : Inv st) {event : Event}
    (h : Faultless st event) : KeepsMarks st event := by
  cases event with
  | markNoteSpent txHash index height read write =>
    rintro rfl note hnote
    refine ⟨_, rfl, ?_⟩
    rcases List.mem_cons.mp hnote with rfl | hold
    · exact ⟨_, List.mem_append_right _ (List.mem_singleton_self _), rfl, rfl⟩
    · rcases h rfl with ⟨hread, hfile⟩ | hsame
      · obtain ⟨s, hs, hkey⟩ := recorded_loaded ((hi.resolve_left hfile) note hold) hread
        exact ⟨s, List.mem_append_left _ hs, hkey⟩
      · obtain rfl := hsame note hold
        exact ⟨_, List.mem_append_right _ (List.mem_singleton_self _), rfl, rfl⟩
  | isNoteSpent txHash index read =>
    intro hread hfile hmarked
    obtain ⟨s, hs, hkey⟩ := recorded_loaded ((hi.resolve_left hfile) _ hmarked) hread
    exact List.any_eq_true.mpr ⟨s, hs, decide_eq_true hkey⟩
  | prepareTransaction scan sendAmount =>
    intro selected hprepare note hnote hmarked
    obtain ⟨hin, nf, hnf, hunspent⟩ := mem_of_prepareTransaction hprepare hnote
    exact hunspent (h note hin hmarked nf hnf)

theorem inv_step {st : State} (hi : Inv st) {event : Event} (h : Faultless st event) :
    Inv (step st event) := by
  cases event with
  | markNoteSpent txHash index height read write =>
    cases write with
    | ok => exact .inr (keepsMarks_of_faultless hi h rfl)
    | failed => exact hi
    | torn data => exact .inl rfl
  | isNoteSpent txHash index read => exact hi
  | prepareTransaction scan sendAmount => exact hi

theorem inv_run {events : List Event}
    (h : ∀ before event after, events = before ++ event :: after → Faultless (run before) event) :
    Inv (run events) := by
  induction events using List.reverseRecOn with
  | nil => exact .inr nofun
  | append_singleton events event ih =>
    have hbefore : Inv (run events) := by
      apply ih
      rintro before event' after rfl
      apply h before event' (after ++ [event])
      rw [List.append_assoc, List.cons_append]
    have hstep := inv_step hbefore (h events event [] rfl)
    unfold run at hstep ⊢
    rw [List.foldl_append]
    exact hstep

def FaultlessRun (events : List Event) : Prop :=
  ∀ before event after, events = before ++ event :: after → Faultless (run before) event

def MarksKept (events : List Event) : Prop :=
  ∀ before event after, events = before ++ event :: after → KeepsMarks (run before) event

theorem marksKept_of_faultless {events : List Event} (h : FaultlessRun events) :
    MarksKept events := by
  rintro before event after rfl
  apply keepsMarks_of_faultless
  · apply inv_run
    rintro before' event' after' rfl
    apply h before' event' (after' ++ event :: after)
    rw [List.append_assoc, List.cons_append]
  · exact h before event after rfl

end Frozt

/-! ## The outputs of the Monero client -/

namespace Fromt

/-- `spent_offsets.bin`, key offsets of 32 bytes each. -/
inductive File where
  | missing
  | saved (data : Bytes)
  | damaged (data : Bytes)
deriving DecidableEq

def File.isDamaged : File → Prop
  | .damaged _ => True
  | _ => False

/-- `LoadSpentOffsets`, without its error: the callers ignore it. -/
def loadSpentOffsets (file : File) : Read → Bytes
  | .failed => []
  | .garbled data => data
  | .intact =>
    match file with
    | .missing => []
    | .saved data => data
    | .damaged data => data

/-- The new file, and whether the call returns without an error. -/
def saveSpentOffsets (file : File) (offsets : Bytes) (read : Read) (write : Write) : Bool × File :=
  let combined := loadSpentOffsets file read ++ offsets
  match write with
  | .ok => (true, .saved combined)
  | .failed => (false, file)
  | .torn data => (false, .damaged data)

/-- `chunks_exact(32)` -/
def chunks (data : Bytes) : List Bytes :=
  if data.length < 32 then [] else data.take 32 :: chunks (data.drop 32)
termination_by data.length
decreasing_by
  rw [List.length_drop]
  omega

/-- The offsets that `fromt_spend_prepare` excludes. -/
def excludedOffsets (data : Bytes) : List Bytes := if data.length % 32 = 0 then chunks data else []

structure WalletOutput where
  keyOffset : Bytes
  amount : UInt64
deriving DecidableEq

/-- The loop of `prepare_spend` over the outputs in descending order. -/
def accumulate (amount : UInt64) (fee : Nat → UInt64) (selected : List WalletOutput)
    (totalSelected : UInt64) : List WalletOutput → List WalletOutput × UInt64
  | [] => (selected, totalSelected)
  | output :: rest =>
    let selected := selected ++ [output]
    let totalSelected := totalSelected + output.amount
    if totalSelected ≥ amount + fee (1500 + selected.length * 2100) then (selected, totalSelected)
    else accumulate amount fee selected totalSelected rest

/-- The outputs that `prepare_spend` selects from. With the spend key at hand the daemon is
asked for the flags of the key images. -/
def unspentOutputs (excluded : List Bytes) (owned : List WalletOutput)
    (checkKeyImages : Option (List WalletOutput → List Bool)) : List WalletOutput :=
  let owned := owned.filter fun output => output.keyOffset ∉ excluded
  match checkKeyImages with
  | none => owned
  | some check => ((owned.zip (check owned)).filter fun e => !e.2).map Prod.fst

/-- `prepare_spend` from the owned outputs to those that it selects. -/
def prepareSpend (excluded : List Bytes) (owned : List WalletOutput)
    (checkKeyImages : Option (List WalletOutput → List Bool)) (amount : UInt64)
    (fee : Nat → UInt64) : Option (List WalletOutput) :=
  let owned := unspentOutputs excluded owned checkKeyImages
  let result := accumulate amount fee [] 0 (owned.mergeSort fun a b => a.amount ≥ b.amount)
  if owned = [] then none
  else if result.2 < amount + fee (1500 + result.1.length * 2100) then none
  else some result.1

/-! ## Histories -/

inductive Event where
  | saveSpentOffsets (offsets : Bytes) (read : Read) (write : Write)
  | prepareSpend (read : Read) (owned : List WalletOutput)
      (checkKeyImages : Option (List WalletOutput → List Bool)) (amount : UInt64)
      (fee : Nat → UInt64)

/-- The file, and the offsets that were saved without an error. -/
structure State where
  file : File
  marked : List Bytes

def State.init : State := ⟨.missing, []⟩

def step (st : State) : Event → State
  | .saveSpentOffsets offsets read write =>
    match SpentMarks.Fromt.saveSpentOffsets st.file offsets read write with
    | (true, file) => ⟨file, chunks offsets ++ st.marked⟩
    | (false, file) => { st with file }
  | .prepareSpend _ _ _ _ _ => st

def run (events : List Event) : State := events.foldl step .init

/-- The file excludes the output when it is read back. -/
def Recorded (file : File) (offset : Bytes) : Prop :=
  ∃ data, file = .saved data ∧ offset ∈ excludedOffsets data

def KeepsMarks (st : State) : Event → Prop
  | .saveSpentOffsets offsets read write =>
    write = .ok → ∀ offset ∈ chunks offsets ++ st.marked,
      Recorded (step st (.saveSpentOffsets offsets read write)).file offset
  | .prepareSpend read owned checkKeyImages amount fee =>
    ∀ selected, Fromt.prepareSpend (excludedOffsets (loadSpentOffsets st.file read)) owned
      checkKeyImages amount fee = some selected → ∀ output ∈ selected, output.keyOffset ∉ st.marked

/-- A save adds whole offsets, and reads back the file as it was last saved unless there are no
other marks to lose. A spend reads the file so too, unless the daemon knows the marked outputs
as spent. -/
def Faultless (st : State) : Event → Prop
  | .saveSpentOffsets offsets read write =>
    write = .ok → offsets.length % 32 = 0 ∧ ((read = .intact ∧ ¬ st.file.isDamaged) ∨
      (loadSpentOffsets st.file read).length % 32 = 0 ∧ ∀ offset ∈ st.marked, offset ∈ chunks offsets)
  | .prepareSpend read _ checkKeyImages _ _ =>
    (read = .intact ∧ ¬ st.file.isDamaged) ∨
      ∃ check, checkKeyImages = some check ∧
        ∀ outputs : List WalletOutput, ∀ e ∈ outputs.zip (check outputs),
          e.1.keyOffset ∈ st.marked → e.2 = true

/-! ## What is excluded -/

theorem chunks_append {a : Bytes} (h : a.length % 32 = 0) (b : Bytes) :
    chunks (a ++ b) = chunks a ++ chunks b := by
  induction a using chunks.induct with
  | case1 a hlt =>
    have hnil : a = [] := List.length_eq_zero_iff.mp (by omega)
    subst hnil
    rw [List.nil_append, chunks.eq_def [], if_pos (by decide), List.nil_append]
  | case2 a hge ih =>
    have hle : 32 ≤ a.length := Nat.le_of_not_lt hge
    rw [chunks.eq_def (a ++ b), chunks.eq_def a, if_neg hge, if_neg (by rw [List.length_append]; omega),
      List.take_append_of_le_length hle, List.drop_append_of_le_length hle, ih, List.cons_append]
    rw [List.length_drop]
    omega

theorem excludedOffsets_append {a b : Bytes} (ha : a.length % 32 = 0) (hb : b.length % 32 = 0) :
    excludedOffsets (a ++ b) = chunks a ++ chunks b := by
  rw [excludedOffsets, if_pos, chunks_append ha]
  rw [List.length_append]
  omega

theorem mem_of_accumulate {amount total : UInt64} {fee : Nat → UInt64}
    {selected outputs : List WalletOutput} :
    ∀ output ∈ (accumulate amount fee selected total outputs).1,
      output ∈ selected ∨ output ∈ outputs := by
  induction outputs generalizing selected total with
  | nil => exact fun output h => .inl h
  | cons first rest ih =>
    intro output houtput
    simp only [accumulate] at houtput
    have hmem : output ∈ selected ++ [first] ∨ output ∈ rest := by
      split at houtput
      · exact .inl houtput
      · exact ih output houtput
    rcases hmem with hmem | hmem
    · rcases List.mem_append.mp hmem with hold | hnew
      · exact .inl hold
      · rw [List.mem_singleton] at hnew
        subst hnew
        exact .inr List.mem_cons_self
    · exact .inr (List.mem_cons_of_mem _ hmem)

theorem mem_of_unspentOutputs {excluded : List Bytes} {owned : List WalletOutput}
    {checkKeyImages : Option (List WalletOutput → List Bool)} {output : WalletOutput}
    (h : output ∈ unspentOutputs excluded owned checkKeyImages) :
    output.keyOffset ∉ excluded ∧ ∀ check, checkKeyImages = some check →
      ∃ outputs : List WalletOutput, (output, false) ∈ outputs.zip (check outputs) := by
  cases checkKeyImages with
  | none =>
    obtain ⟨-, hexcluded⟩ := List.mem_filter.mp h
    exact ⟨of_decide_eq_true hexcluded, nofun⟩
  | some check =>
    obtain ⟨⟨output', flag⟩, hmem, rfl⟩ := List.mem_map.mp h
    obtain ⟨hzip, hflag⟩ := List.mem_filter.mp hmem
    obtain rfl : flag = false := by simpa using hflag
    obtain ⟨-, hexcluded⟩ := List.mem_filter.mp (List.of_mem_zip hzip).1
    refine ⟨of_decide_eq_true hexcluded, ?_⟩
    rintro check' heq
    obtain rfl := Option.some.inj heq
    exact ⟨_, hzip⟩

theorem mem_of_prepareSpend {excluded : List Bytes} {owned selected : List WalletOutput}
    {checkKeyImages : Option (List WalletOutput → List Bool)} {amount : UInt64}
    {fee : Nat → UInt64}
    (h : prepareSpend excluded owned checkKeyImages amount fee = some selected)
    {output : WalletOutput} (houtput : output ∈ selected) :
    output ∈ unspentOutputs excluded owned checkKeyImages := by
  simp only [prepareSpend] at h
  split at h
  · nomatch h
  · split at h
    · nomatch h
    · obtain rfl := Option.some.inj h
      rcases mem_of_accumulate output houtput with hnil | hmem
      · nomatch hnil
      · exact List.mem_mergeSort.mp hmem

/-! ## Runs -/

/-- Unless the file is damaged, it consists of whole offsets, and these are all the marks. -/
def Inv (st : State) : Prop :=
  st.file.isDamaged ∨ (loadSpentOffsets st.file .intact).length % 32 = 0 ∧
    ∀ offset ∈ st.marked, offset ∈ chunks (loadSpentOffsets st.file .intact)

theorem saved_whole {st : State} (hi : Inv st) {offsets : Bytes} {read : Read}
    (h : Faultless st (.saveSpentOffsets offsets read .ok)) :
    (loadSpentOffsets st.file read).length % 32 = 0 ∧ offsets.length % 32 = 0 ∧
      ∀ offset ∈ chunks offsets ++ st.marked,
        offset ∈ chunks (loadSpentOffsets st.file read) ++ chunks offsets := by
  obtain ⟨hwhole, hread⟩ := h rfl
  rcases hread with ⟨rfl, hfile⟩ | ⟨hlen, hsame⟩
  · obtain ⟨hlen, hmarked⟩ := hi.resolve_left hfile
    refine ⟨hlen, hwhole, fun offset hoffset => ?_⟩
    rcases List.mem_append.mp hoffset with hnew | hold
    · exact List.mem_append_right _ hnew
    · exact List.mem_append_left _ (hmarked offset hold)
  · refine ⟨hlen, hwhole, fun offset hoffset => List.mem_append_right _ ?_⟩
    rcases List.mem_append.mp hoffset with hnew | hold
    · exact hnew
    · exact hsame offset hold

theorem keepsMarks_of_faultless {st : State} (hi : Inv st) {event : Event}
    (h : Faultless st event) : KeepsMarks st event := by
  cases event with
  | saveSpentOffsets offsets read write =>
    rintro rfl offset hoffset
    obtain ⟨hlen, hwhole, hmem⟩ := saved_whole hi h
    refine ⟨_, rfl, ?_⟩
    rw [excludedOffsets_append hlen hwhole]
    exact hmem offset hoffset
  | prepareSpend read owned checkKeyImages amount fee =>
    intro selected hprepare output houtput hmarked
    obtain ⟨hexcluded, hunspent⟩ := mem_of_unspentOutputs (mem_of_prepareSpend hprepare houtput)
    rcases h with ⟨rfl, hfile⟩ | ⟨check, hcheck, hknown⟩
    · obtain ⟨hlen, hall⟩ := hi.resolve_left hfile
      apply hexcluded
      rw [excludedOffsets, if_pos hlen]
      exact hall _ hmarked
    · obtain ⟨outputs, hzip⟩ := hunspent check hcheck
      nomatch hknown outputs _ hzip hmarked

theorem inv_step {st : State} (hi : Inv st) {event : Event} (h : Faultless st event) :
    Inv (step st event) := by
  cases event with
  | saveSpentOffsets offsets read write =>
    cases write with
    | ok =>
      obtain ⟨hlen, hwhole, hmem⟩ := saved_whole hi h
      right
      constructor
      · change (loadSpentOffsets st.file read ++ offsets).length % 32 = 0
        rw [List.length_append]
        omega
      · intro offset hoffset
        change offset ∈ chunks (loadSpentOffsets st.file read ++ offsets)
        rw [chunks_append hlen]
        exact hmem offset hoffset
    | failed => exact hi
    | torn data => exact .inl trivial
  | prepareSpend read owned checkKeyImages amount fee => exact hi

def FaultlessRun (events : List Event) : Prop :=
  ∀ before event after, events = before ++ event :: after → Faultless (run before) event

def MarksKept (events : List Event) : Prop :=
  ∀ before event after, events = before ++ event :: after → KeepsMarks (run before) event

theorem inv_run {events : List Event} (h : FaultlessRun events) : Inv (run events) := by
  induction events using List.reverseRecOn with
  | nil => exact .inr ⟨rfl, nofun⟩
  | append_singleton events event ih =>
    have hbefore : Inv (run events) := by
      apply ih
      rintro before event' after rfl
      apply h before event' (after ++ [event])
      rw [List.append_assoc, List.cons_append]
    have hstep := inv_step hbefore (h events event [] rfl)
    unfold run at hstep ⊢
    rw [List.foldl_append]
    exact hstep

theorem marksKept_of_faultless {events : List Event} (h : FaultlessRun events) :
    MarksKept events := by
  rintro before event after rfl
  apply keepsMarks_of_faultless
  · apply inv_run
    rintro before' event' after' rfl
    apply h before' event' (after' ++ event :: after)
    rw [List.append_assoc, List.cons_append]
  · exact h before event after rfl

end Fromt

/-- In both clients a history without faults keeps its marks. -/
theorem spentMarks_kept (froztEvents : List Frozt.Event) (fromtEvents : List Fromt.Event) :
    (Frozt.FaultlessRun froztEvents → Frozt.MarksKept froztEvents) ∧
      (Fromt.FaultlessRun fromtEvents → Fromt.MarksKept fromtEvents) :=
  ⟨Frozt.marksKept_of_faultless, Fromt.marksKept_of_faultless⟩

/-- Two notes are marked, each by a call that returns no error. -/
def sampleMarks (read : Read) : List Frozt.Event :=
  [.markNoteSpent [1] 0 5 .intact .ok, .markNoteSpent [2] 0 6 read .ok]

theorem faultlessRun_sample : Frozt.FaultlessRun (sampleMarks .intact) := by
  intro before event after h
  have hlen := congrArg List.length h
  rcases before with _ | ⟨first, _ | ⟨second, before⟩⟩
  · obtain ⟨rfl, -⟩ := List.cons.inj h
    exact fun _ => .inl ⟨rfl, nofun⟩
  · obtain ⟨hfirst, h⟩ := List.cons.inj h
    obtain ⟨rfl, -⟩ := List.cons.inj h
    rw [← hfirst]
    exact fun _ => .inl ⟨rfl, by decide⟩
  · simp [sampleMarks] at hlen

theorem spentMarks_kept_sample : Frozt.MarksKept (sampleMarks .intact) :=
  (spentMarks_kept (sampleMarks .intact) []).1 faultlessRun_sample

/-- When the second call cannot read the file, the first note is marked no more. And a marked
note is selected while the chain does not show its nullifier. -/
theorem spentMark_lost_and_ignored :
    ¬ Frozt.MarksKept (sampleMarks .failed) ∧
    ¬ Frozt.MarksKept [.markNoteSpent [1] 0 5 .intact .ok,
      .prepareTransaction ⟨[⟨5, [1], 0, 100000, 0⟩], fun _ => some [7], []⟩ 1000] := by
  constructor
  · intro h
    obtain ⟨l, hfile, s, hs, hkey, -⟩ :=
      h [.markNoteSpent [1] 0 5 .intact .ok] _ [] rfl rfl ([1], 0) (by decide)
    obtain rfl : [⟨Relay.hexEncode [2], 0, 6⟩] = l := Frozt.File.notes.inj hfile
    rw [List.mem_singleton] at hs
    rw [hs] at hkey
    exact absurd (Relay.hexEncode_injective hkey) (by decide)
  · intro h
    have hselected : Frozt.prepareTransaction
        ⟨[⟨5, [1], 0, 100000, 0⟩], fun _ => some [7], []⟩ 1000 = some [⟨5, [1], 0, 100000, 0⟩] := by
      decide +kernel
    exact h [.markNoteSpent [1] 0 5 .intact .ok] _ [] rfl _ hselected _ List.mem_cons_self
      List.mem_cons_self

end SpentMarks
