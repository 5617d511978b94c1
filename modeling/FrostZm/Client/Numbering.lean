import FrostZm.Client.Prepare
import FrostZm.Client.ScanExact

/-!
# The numbers of the commitments

The scan gives every output of the stream a number. The builder of a witness starts from the
tree before the block of a note and appends the outputs whose commitment has its length.
-/

namespace Spend

/-! ## A witness before it is written -/

section Handle

variable {Tree Witness : Type} (t : TreeCalls Tree Witness)

/-- `BuildWitness` up to `SaplingWitnessSerialize`. -/
def witnessHandle (scanner : Scanner) (note : SpentMarks.Frozt.FoundNote) (chainTip : UInt64) :
    Option Witness := do
  let treeState ← scanner.getTreeState (note.height - 1)
  let tree ← t.treeFromState treeState
  let noteBlock ← scanner.scanBlock note.height
  let (_, w) ← (outputsOf noteBlock).foldlM (appendOutput t note) (tree, none)
  let w ← w
  (heights (note.height + 1) (endHeight note.height chainTip)).foldlM (fun w h => do
    let block ← scanner.scanBlock h
    advance t w block) w

end Handle

section Position

variable {Tree Witness Rng W : Type} {t : TreeCalls Tree Witness} {lib : SaplingLib Rng W}
  (model : TreeModel t lib) {scanner : Scanner} {note : SpentMarks.Frozt.FoundNote}

theorem witnessHandle_ok {chainTip : UInt64} {w : Witness}
    (h : witnessHandle t scanner note chainTip = some w) :
    ∃ state tree block, scanner.getTreeState (note.height - 1) = some state ∧
      t.treeFromState state = some tree ∧ scanner.scanBlock note.height = some block ∧
      ∀ l, model.leaves tree l → ∃ place, lastMatch (matchesNote · note)
        ((outputsOf block).filter fun o => o.cmu.length = 32) = some place ∧
        model.position w = l.length + place := by
  unfold witnessHandle at h
  obtain ⟨state, hstate, h⟩ := Option.bind_eq_some_iff.mp h
  obtain ⟨tree, htree, h⟩ := Option.bind_eq_some_iff.mp h
  obtain ⟨block, hblock, h⟩ := Option.bind_eq_some_iff.mp h
  obtain ⟨⟨tree', w?⟩, hloop, h⟩ := Option.bind_eq_some_iff.mp h
  obtain ⟨w₁, hw₁, h⟩ := Option.bind_eq_some_iff.mp h
  refine ⟨state, tree, block, hstate, htree, hblock, fun l hl => ?_⟩
  have hstart : Tracks model note l [] (tree, none) := by
    refine ⟨?_, nofun⟩
    rwa [List.map_nil, List.append_nil]
  obtain ⟨hheld, place, hplace, hpos⟩ := (hstart.appendAll hloop).witness w₁ hw₁
  have hscan : ∀ h block, scanner.scanBlock h = some block →
      block = (scanner.scanBlock h).getD [] := by
    intro h block hsome
    rw [hsome, Option.getD_some]
  rw [List.nil_append] at hplace
  exact ⟨place, hplace, (advanceAll_ok hscan hheld h).2.trans hpos⟩

theorem lastMatch_eq_iff (p : Output → Bool) (earlier later : List Output) {own : Output}
    (hown : p own) : lastMatch p (earlier ++ own :: later) = some earlier.length ↔
      ∀ o ∈ later, ¬ p o := by
  induction later using List.reverseRecOn with
  | nil => simp [lastMatch_concat, hown]
  | append_singleton later o ih =>
    rw [← List.cons_append, ← List.append_assoc, lastMatch_concat]
    by_cases ho : p o
    · simp [ho]
    · simp [ho, ih, or_imp, forall_and]

theorem exists_of_lastMatch {p : Output → Bool} {outputs : List Output} {place : Nat}
    (h : lastMatch p outputs = some place) : ∃ o ∈ outputs, p o := by
  obtain ⟨⟨o, i⟩, hlast, -⟩ := Option.map_eq_some_iff.mp h
  obtain ⟨hmem, ho⟩ := List.mem_filter.mp (List.mem_of_getLast? hlast)
  exact ⟨o, (List.mem_zipIdx' hmem).2 ▸ List.getElem_mem _, ho⟩

end Position

end Spend

namespace Scan

open Lightwalletd (CompactTx CompactOutput)

/-! ## The scan numbers all outputs -/

/-- An output with its transaction and its place in it. -/
structure Located where
  txHash : Bytes
  index : Nat
  output : CompactOutput

def locatedTx (tx : CompactTx) : List Located :=
  tx.outputs.zipIdx.map fun (output, i) => ⟨tx.hash, i, output⟩

def locatedIn (block : Block) : List Located := block.transactions.flatMap locatedTx

/-- The commitment has its length. -/
def Located.Formed (l : Located) : Prop := l.output.cmu.length = 32

instance (l : Located) : Decidable l.Formed := inferInstanceAs (Decidable (_ = _))

/-- The note was found in this output, with this number. -/
structure Located.Gives (own : Located) (height position : Nat) (note : FoundNote) : Prop where
  formed : own.Formed
  height : note.height = height
  txHash : note.txHash = own.txHash
  index : note.index = own.index
  position : note.position = position

/-- From one state to the other these outputs were counted, and every new note is of one of them. -/
structure Adds (height : Nat) (st st' : State) (outputs : List Located) : Prop where
  commitmentPos : st'.commitmentPos = st.commitmentPos + outputs.length
  notes : ∀ note ∈ st'.notes, note ∈ st.notes ∨ ∃ earlier own later,
    outputs = earlier ++ own :: later ∧ own.Gives height (st.commitmentPos + earlier.length) note

variable {decrypt : CompactOutput → UInt64 → Option (Option UInt64)} {height : Nat}
  {st st' st'' : State}

theorem Adds.trans {xs ys : List Located} (h : Adds height st st' xs) (h' : Adds height st' st'' ys) :
    Adds height st st'' (xs ++ ys) := by
  constructor
  · rw [h'.commitmentPos, h.commitmentPos, List.length_append, Nat.add_assoc]
  · intro note hnote
    rcases h'.notes note hnote with hold | ⟨earlier, own, later, rfl, hown⟩
    · rcases h.notes note hold with hold | ⟨earlier, own, later, rfl, hown⟩
      · exact .inl hold
      · exact .inr ⟨earlier, own, later ++ ys, by simp, hown⟩
    · refine .inr ⟨xs ++ earlier, own, later, by simp, ?_⟩
      rw [List.length_append, ← Nat.add_assoc, ← h.commitmentPos]
      exact hown

theorem outputStep_adds {txHash : Bytes} {output : CompactOutput × Nat}
    (h : outputStep decrypt height txHash st output = some st') :
    Adds height st st' [⟨txHash, output.2, output.1⟩] := by
  unfold outputStep at h
  split at h
  · obtain rfl := Option.some.inj h
    exact ⟨rfl, fun note hnote => .inl hnote⟩
  · next hformed =>
    split at h
    · obtain rfl := Option.some.inj h
      exact ⟨rfl, fun note hnote => .inl hnote⟩
    · obtain ⟨value, -, h⟩ := Option.bind_eq_some_iff.mp h
      obtain rfl := Option.some.inj h
      refine ⟨rfl, fun note hnote => ?_⟩
      rcases List.mem_append.mp hnote with hold | hnew
      · exact .inl hold
      · obtain ⟨v, -, rfl⟩ := Option.map_eq_some_iff.mp (Option.mem_toList.mp hnew)
        exact .inr ⟨[], _, [], rfl, not_not.mp hformed, rfl, rfl, rfl, rfl⟩

theorem foldlM_adds {txHash : Bytes} {outputs : List (CompactOutput × Nat)}
    (h : outputs.foldlM (outputStep decrypt height txHash) st = some st') :
    Adds height st st' (outputs.map fun (output, i) => ⟨txHash, i, output⟩) := by
  induction outputs generalizing st with
  | nil =>
    obtain rfl := Option.some.inj h
    exact ⟨rfl, fun note hnote => .inl hnote⟩
  | cons output outputs ih =>
    rw [List.foldlM_cons] at h
    obtain ⟨st₁, hst₁, h⟩ := Option.bind_eq_some_iff.mp h
    exact (outputStep_adds hst₁).trans (ih h)

theorem txStep_adds {tx : CompactTx} (h : txStep decrypt height st tx = some st') :
    Adds height st st' (locatedTx tx) := by
  have hadds := foldlM_adds h
  exact ⟨hadds.commitmentPos, hadds.notes⟩

theorem blockStep_adds {block : Block} (h : blockStep decrypt st block = some st') :
    Adds block.height st st' (locatedIn block) := by
  unfold blockStep at h
  unfold locatedIn
  generalize block.transactions = txs at h ⊢
  induction txs generalizing st with
  | nil =>
    obtain rfl := Option.some.inj h
    exact ⟨rfl, fun note hnote => .inl hnote⟩
  | cons tx txs ih =>
    rw [List.foldlM_cons] at h
    obtain ⟨st₁, hst₁, h⟩ := Option.bind_eq_some_iff.mp h
    rw [List.flatMap_cons]
    exact (txStep_adds hst₁).trans (ih h)

/-- Where a note of a scan stands in the stream. -/
structure Place (blocks : List Block) (initialTreeSize : Nat) (note : FoundNote) where
  before : List Block
  block : Block
  after : List Block
  earlier : List Located
  own : Located
  later : List Located
  blocks_eq : blocks = before ++ block :: after
  outputs_eq : locatedIn block = earlier ++ own :: later
  gives : own.Gives block.height
    (initialTreeSize + (before.flatMap locatedIn).length + earlier.length) note

theorem scan_places {blocks : List Block} {initialTreeSize : Nat}
    (h : blocks.foldlM (blockStep decrypt) ⟨[], initialTreeSize, []⟩ = some st) :
    st.commitmentPos = initialTreeSize + (blocks.flatMap locatedIn).length ∧
    ∀ note ∈ st.notes, Nonempty (Place blocks initialTreeSize note) := by
  induction blocks using List.reverseRecOn generalizing st with
  | nil =>
    obtain rfl := Option.some.inj h
    exact ⟨rfl, nofun⟩
  | append_singleton blocks block ih =>
    rw [List.foldlM_append] at h
    obtain ⟨st₁, hst₁, h⟩ := Option.bind_eq_some_iff.mp h
    obtain ⟨st₂, hst₂, h⟩ := Option.bind_eq_some_iff.mp h
    obtain rfl := Option.some.inj h
    obtain ⟨hpos, hnotes⟩ := ih hst₁
    have hadds := blockStep_adds hst₂
    refine ⟨?_, fun note hnote => ?_⟩
    · rw [hadds.commitmentPos, hpos, List.flatMap_append, List.length_append, List.flatMap_singleton,
        Nat.add_assoc]
    · rcases hadds.notes note hnote with hold | ⟨earlier, own, later, houtputs, hgives⟩
      · obtain ⟨⟨before, b, after, earlier, own, later, rfl, houtputs, hgives⟩⟩ := hnotes note hold
        exact ⟨⟨before, b, after ++ [block], earlier, own, later, by simp, houtputs, hgives⟩⟩
      · rw [hpos] at hgives
        exact ⟨⟨blocks, block, [], earlier, own, later, rfl, houtputs, hgives⟩⟩

/-! ## Both numbers -/

def Located.spend (l : Located) : Spend.Output := ⟨l.txHash, l.index, l.output.cmu⟩

/-- The block as the builder of a witness uses it. -/
def Block.spend (block : Block) : List Spend.CompactTx :=
  block.transactions.map fun tx => ⟨tx.hash, tx.outputs.map (·.cmu)⟩

def FoundNote.spend (note : FoundNote) : SpentMarks.Frozt.FoundNote where
  height := .ofNat note.height
  txHash := note.txHash
  index := note.index
  value := note.value
  position := .ofNat note.position

variable {Tree Witness Rng W : Type} {t : Spend.TreeCalls Tree Witness} {lib : SaplingLib Rng W}

/-- The server answers both with the same blocks. Its tree in front of a block holds what was
there before the stream and a commitment for each output in it that the server counts. -/
structure SameChain (model : Spend.TreeModel t lib) (scanner : Spend.Scanner) (blocks : List Block)
    (initialTreeSize : Nat) (counts : Located → Bool) : Prop where
  scanBlock : ∀ block ∈ blocks, ∀ txs, scanner.scanBlock (.ofNat block.height) = some txs →
    txs = block.spend
  getTreeState : ∀ before block after, blocks = before ++ block :: after → ∀ state tree,
    scanner.getTreeState (.ofNat block.height - 1) = some state → t.treeFromState state = some tree →
    ∃ l, model.leaves tree l ∧
      l.length = initialTreeSize + (before.flatMap locatedIn).countP counts
  counts_of_formed : ∀ l : Located, l.Formed → counts l

/-- How many commitments the tree holds when the builder comes to the output of the note. -/
def Place.appended {blocks : List Block} {initialTreeSize : Nat} {note : FoundNote}
    (p : Place blocks initialTreeSize note) (counts : Located → Bool) : Nat :=
  initialTreeSize + (p.before.flatMap locatedIn).countP counts + p.earlier.countP (·.Formed)

/-- No output is left out before the note. -/
structure Place.Counted {blocks : List Block} {initialTreeSize : Nat} {note : FoundNote}
    (p : Place blocks initialTreeSize note) (counts : Located → Bool) : Prop where
  before : ∀ l ∈ p.before.flatMap locatedIn, counts l
  earlier : ∀ l ∈ p.earlier, l.Formed

/-- No later output of the block is taken for it. -/
def Place.Last {blocks : List Block} {initialTreeSize : Nat} {note : FoundNote}
    (p : Place blocks initialTreeSize note) : Prop :=
  ∀ l ∈ p.later, ¬ (l.Formed ∧ l.txHash = p.own.txHash ∧ l.index = p.own.index)

theorem outputsOf_spend (block : Block) :
    Spend.outputsOf block.spend = (locatedIn block).map Located.spend := by
  unfold Spend.outputsOf Block.spend locatedIn locatedTx
  rw [List.flatMap_map, List.map_flatMap]
  apply List.flatMap_congr
  intro tx _
  rw [List.zipIdx_map, List.map_map, List.map_map]
  rfl

section Alike

variable {model : Spend.TreeModel t lib} {scanner : Spend.Scanner} {blocks : List Block}
  {initialTreeSize : Nat} {note : FoundNote} {counts : Located → Bool}

theorem Place.mem (p : Place blocks initialTreeSize note) : p.block ∈ blocks := by
  obtain ⟨before, block, after, -, -, -, rfl, -, -⟩ := p
  exact List.mem_append_right _ List.mem_cons_self

/-- A sum of counts is full if and only if nothing was left out. -/
theorem Place.position_eq_iff (p : Place blocks initialTreeSize note) :
    note.position = p.appended counts ↔ p.Counted counts := by
  have hbefore := List.countP_le_length (p := counts) (l := p.before.flatMap locatedIn)
  have hearlier := List.countP_le_length (p := fun l : Located => decide l.Formed) (l := p.earlier)
  rw [p.gives.position, appended]
  constructor
  · intro h
    refine ⟨List.countP_eq_length.mp (by omega), fun l hl => ?_⟩
    have hall := List.countP_eq_length.mp (show p.earlier.countP (·.Formed) = p.earlier.length by omega)
    exact of_decide_eq_true (hall l hl)
  · intro h
    rw [List.countP_eq_length.mpr h.before,
      List.countP_eq_length.mpr fun l hl => decide_eq_true (h.earlier l hl)]

theorem matchesNote_spend {l : Located} : Spend.matchesNote l.spend note.spend ↔
    note.txHash ≠ [] ∧ l.txHash = note.txHash ∧ l.index = note.index := by
  simp only [Spend.matchesNote, Located.spend, FoundNote.spend, decide_eq_true_eq, Int.natCast_inj]
  constructor
  · rintro ⟨-, hne, hindex, hhash⟩
    exact ⟨hne, hhash, hindex⟩
  · rintro ⟨hne, hhash, hindex⟩
    exact ⟨hhash ▸ hne, hne, hindex, hhash⟩

theorem Place.built_iff (p : Place blocks initialTreeSize note)
    (same : SameChain model scanner blocks initialTreeSize counts) {chainTip : UInt64} {w : Witness}
    (h : Spend.witnessHandle t scanner note.spend chainTip = some w) :
    model.position w = p.appended counts ↔ p.Last := by
  obtain ⟨state, tree, txs, hstate, htree, hblock, hplaces⟩ := Spend.witnessHandle_ok model h
  have hheight : note.spend.height = .ofNat p.block.height := congrArg UInt64.ofNat p.gives.height
  rw [hheight] at hstate hblock
  obtain rfl := same.scanBlock _ p.mem _ hblock
  obtain ⟨leaves, hheld, hleaves⟩ := same.getTreeState _ _ _ p.blocks_eq _ _ hstate htree
  obtain ⟨place, hplace, hpos⟩ := hplaces leaves hheld
  have hfilter (l : List Located) : (l.map Located.spend).filter (fun o => o.cmu.length = 32) =
      (l.filter (·.Formed)).map Located.spend := List.filter_map
  have hcons : (p.own :: p.later).filter (·.Formed) = p.own :: p.later.filter (·.Formed) :=
    List.filter_cons_of_pos (decide_eq_true p.gives.formed)
  rw [outputsOf_spend, p.outputs_eq, hfilter, List.filter_append, hcons, List.map_append,
    List.map_cons] at hplace
  have hne : note.txHash ≠ [] := by
    obtain ⟨o, ho, hmatch⟩ := Spend.exists_of_lastMatch hplace
    rw [← List.map_cons, ← List.map_append] at ho
    obtain ⟨l, -, rfl⟩ := List.mem_map.mp ho
    exact (matchesNote_spend.mp hmatch).1
  have hown : Spend.matchesNote p.own.spend note.spend :=
    matchesNote_spend.mpr ⟨hne, p.gives.txHash.symm, p.gives.index.symm⟩
  have hlast := Spend.lastMatch_eq_iff (Spend.matchesNote · note.spend)
    ((p.earlier.filter (·.Formed)).map Located.spend)
    ((p.later.filter (·.Formed)).map Located.spend) hown
  rw [hplace, List.length_map, ← List.countP_eq_length_filter, Option.some_inj] at hlast
  rw [hpos, hleaves, appended, Nat.add_right_inj, hlast, List.forall_mem_map]
  unfold Last
  constructor
  · rintro h l hl ⟨hformed, hhash, hindex⟩
    apply h l (List.mem_filter.mpr ⟨hl, decide_eq_true hformed⟩)
    exact matchesNote_spend.mpr ⟨hne, hhash.trans p.gives.txHash.symm, hindex.trans p.gives.index.symm⟩
  · intro h l hl hmatch
    obtain ⟨hl, hformed⟩ := List.mem_filter.mp hl
    obtain ⟨-, hhash, hindex⟩ := matchesNote_spend.mp hmatch
    exact h l hl ⟨of_decide_eq_true hformed, hhash.trans p.gives.txHash, hindex.trans p.gives.index⟩

/-- The scan gives a note the number that the builder comes to it with, if and only if no output
before it was left out. A witness is for the note if and only if no later output of its block is
taken for it. -/
theorem numbered_alike_iff (same : SameChain model scanner blocks initialTreeSize counts)
    (hscan : blocks.foldlM (blockStep decrypt) ⟨[], initialTreeSize, []⟩ = some st)
    (hnote : note ∈ st.notes) (chainTip : UInt64) : ∃ p : Place blocks initialTreeSize note,
    (note.position = p.appended counts ↔ p.Counted counts) ∧
    ∀ w, Spend.witnessHandle t scanner note.spend chainTip = some w →
      (model.position w = p.appended counts ↔ p.Last) := by
  obtain ⟨p⟩ := (scan_places hscan).2 note hnote
  exact ⟨p, p.position_eq_iff, fun w hw => p.built_iff same hw⟩

end Alike

section Samples

open Reference

def fiveCompact : CompactOutput where
  cmu := fiveOutput.cmu
  ephemeralKey := fiveOutput.ephemeralKey
  ciphertext := fiveOutput.encCiphertext.take 52

/-- A stream of one block, with one transaction. -/
def sampleBlock (outputs : List CompactOutput) : Block := ⟨2000000, [⟨[1], [], outputs⟩]⟩

/-- Nothing is in the tree in front of it. -/
def sampleScanner (outputs : List CompactOutput) : Spend.Scanner where
  getTreeState h := if h = 1999999 then some (ascii "000000") else none
  scanBlock h := if h = 2000000 then some (sampleBlock outputs).spend else none

theorem eq_of_singleton {α : Type} {a b : α} {before after : List α} (h : [a] = before ++ b :: after) :
    before = [] ∧ b = a ∧ after = [] := by
  cases before with
  | nil =>
    obtain ⟨rfl, rfl⟩ := List.cons.inj h
    exact ⟨rfl, rfl, rfl⟩
  | cons c rest => simp at h

theorem sample_sameChain (outputs : List CompactOutput) :
    SameChain treeModel (sampleScanner outputs) [sampleBlock outputs] 0 fun _ => true where
  scanBlock block hblock txs htxs := by
    obtain rfl := List.mem_singleton.mp hblock
    exact (Option.some.inj htxs).symm
  getTreeState before block after heq state tree hstate htree := by
    obtain ⟨rfl, rfl, rfl⟩ := eq_of_singleton heq
    have hzero : (sampleScanner outputs).getTreeState
        (.ofNat (sampleBlock outputs).height - 1) = some (ascii "000000") := by
      unfold sampleScanner
      exact if_pos (show UInt64.ofNat 2000000 - 1 = 1999999 by decide)
    rw [hzero] at hstate
    obtain rfl := Option.some.inj hstate
    have hempty : treeCalls.treeFromState (ascii "000000") = some ⟨[], by decide⟩ := by
      decide +kernel
    obtain rfl := Option.some.inj (hempty.symm.trans htree)
    exact ⟨[], rfl, rfl⟩
  counts_of_formed _ _ := rfl

def foundFive (index : Nat) : FoundNote :=
  ⟨2000000, [1], index, 5, index, fiveOutput.cmu, fiveOutput.ephemeralKey⟩

def sampleScan (outputs : List CompactOutput) : Option State :=
  [sampleBlock outputs].foldlM (blockStep (Go.tryDecrypt scans zeroScanKeys.ivk)) ⟨[], 0, []⟩

theorem sample_place {outputs : List CompactOutput} {note : FoundNote}
    (p : Place [sampleBlock outputs] 0 note) :
    p.before = [] ∧ p.earlier ++ p.own :: p.later = locatedIn (sampleBlock outputs) ∧
      p.earlier.length = note.position := by
  obtain ⟨hbefore, hblock, -⟩ := eq_of_singleton p.blocks_eq
  have hpos := p.gives.position
  rw [hbefore, List.flatMap_nil, List.length_nil] at hpos
  refine ⟨hbefore, ?_, by omega⟩
  rw [← p.outputs_eq, hblock]

/-- Two notes in one transaction, of which the second one counts the first. -/
theorem numbered_alike_sample : ∃ st, sampleScan [fiveCompact, fiveCompact] = some st ∧
    foundFive 1 ∈ st.notes ∧ ∃ p : Place [sampleBlock [fiveCompact, fiveCompact]] 0 (foundFive 1),
      (foundFive 1).position = p.appended (fun _ => true) ∧
      ∃ w, Spend.witnessHandle treeCalls (sampleScanner [fiveCompact, fiveCompact]) (foundFive 1).spend
        2000000 = some w ∧ treeModel.position w = p.appended fun _ => true := by
  have hscan : (sampleScan [fiveCompact, fiveCompact]).map State.notes =
      some [foundFive 0, foundFive 1] := by decide +kernel
  obtain ⟨st, hst, hnotes⟩ := Option.map_eq_some_iff.mp hscan
  have hnote : foundFive 1 ∈ st.notes := hnotes ▸ List.mem_cons_of_mem _ (List.mem_singleton_self _)
  have hbuilt : (Spend.witnessHandle treeCalls (sampleScanner [fiveCompact, fiveCompact])
      (foundFive 1).spend 2000000).isSome = true := by decide +kernel
  obtain ⟨w, hw⟩ := Option.isSome_iff_exists.mp hbuilt
  obtain ⟨p, hposition, hwitness⟩ :=
    numbered_alike_iff (sample_sameChain [fiveCompact, fiveCompact]) hst hnote 2000000
  obtain ⟨hbefore, houtputs, hearlier⟩ := sample_place p
  have hone : p.earlier.length = 1 := hearlier
  have hlater : p.later = [] := by
    have hlen := congrArg List.length houtputs
    have htwo : (locatedIn (sampleBlock [fiveCompact, fiveCompact])).length = 2 := rfl
    rw [htwo, List.length_append, List.length_cons, hone] at hlen
    exact List.length_eq_zero_iff.mp (by omega)
  refine ⟨st, hst, hnote, p, hposition.mpr ⟨?_, ?_⟩, w, hw, (hwitness w hw).mpr ?_⟩
  · rw [hbefore]
    exact nofun
  · intro l hl
    have hmem : l ∈ (locatedIn (sampleBlock [fiveCompact, fiveCompact])).take 1 := by
      rw [← houtputs, List.take_left' hone]
      exact hl
    obtain rfl := List.mem_singleton.mp (hmem : l ∈ [⟨[1], 0, fiveCompact⟩])
    decide
  · unfold Place.Last
    rw [hlater]
    exact nofun

/-- A commitment of no bytes before the note: the scan counts it, the builder does not. -/
theorem malformed_output_shifts :
    ∃ st, sampleScan [⟨[], [], []⟩, fiveCompact] = some st ∧ foundFive 1 ∈ st.notes ∧
      SameChain treeModel (sampleScanner [⟨[], [], []⟩, fiveCompact])
        [sampleBlock [⟨[], [], []⟩, fiveCompact]] 0 (fun _ => true) ∧
      ∀ p : Place [sampleBlock [⟨[], [], []⟩, fiveCompact]] 0 (foundFive 1),
        (foundFive 1).position ≠ p.appended fun _ => true := by
  have hscan : (sampleScan [⟨[], [], []⟩, fiveCompact]).map State.notes = some [foundFive 1] := by
    decide +kernel
  obtain ⟨st, hst, hnotes⟩ := Option.map_eq_some_iff.mp hscan
  refine ⟨st, hst, hnotes ▸ List.mem_singleton_self _, sample_sameChain _, fun p hp => ?_⟩
  have hcounted := p.position_eq_iff.mp hp
  obtain ⟨-, houtputs, hearlier⟩ := sample_place p
  have hone : p.earlier = [⟨[1], 0, ⟨[], [], []⟩⟩] := by
    have hlen : p.earlier.length = 1 := hearlier
    have htake := congrArg (List.take 1) houtputs
    rw [List.take_left' hlen] at htake
    exact htake
  have hformed := hcounted.earlier _ (hone ▸ List.mem_singleton_self _)
  exact absurd hformed (by decide)

end Samples

end Scan
