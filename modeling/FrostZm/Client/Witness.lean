import FrostZm.Client.SpentMarks
import FrostZm.Frozt.Complete
import FrostZm.Frozt.TreeCalls

/-!
# The witness of a note

`BuildWitness` starts from the tree before the block of a note, and goes on to the chain tip, or
a hundred blocks behind the note. What its tree holds then is a list of commitments that depends
on the height of the note.
-/

namespace Spend

open SpentMarks.Frozt (FoundNote)

/-- A transaction of a compact block, with the commitments of its outputs. -/
structure CompactTx where
  hash : Bytes
  outputs : List Bytes

/-- What the server answers. -/
structure Scanner where
  getTreeState : UInt64 → Option Bytes
  scanBlock : UInt64 → Option (List CompactTx)

/-- The calls to the trees of the library. -/
structure TreeCalls (Tree Witness : Type) where
  treeFromState : Bytes → Option Tree
  treeAppend : Tree → Bytes → Option Tree
  treeWitness : Tree → Option Witness
  witnessAppend : Witness → Bytes → Option Witness
  witnessSerialize : Witness → Option Bytes

/-- An output with its transaction and its place in it. -/
structure Output where
  txHash : Bytes
  index : Int
  cmu : Bytes

def outputsOf (block : List CompactTx) : List Output :=
  block.flatMap fun tx => tx.outputs.zipIdx.map fun (cmu, i) => ⟨tx.hash, i, cmu⟩

def matchesNote (output : Output) (note : FoundNote) : Bool :=
  output.txHash ≠ [] ∧ note.txHash ≠ [] ∧ output.index = note.index ∧ output.txHash = note.txHash

section BuildWitness

variable {Tree Witness : Type} (t : TreeCalls Tree Witness)

/-- The body of the loop over the block of the note. -/
def appendOutput (note : FoundNote) (st : Tree × Option Witness) (output : Output) :
    Option (Tree × Option Witness) :=
  if output.cmu.length ≠ 32 then some st
  else do
    let tree ← t.treeAppend st.1 output.cmu
    if matchesNote output note then
      let w ← t.treeWitness tree
      return (tree, some w)
    else
      match st.2 with
      | none => return (tree, none)
      | some w =>
        let w ← t.witnessAppend w output.cmu
        return (tree, some w)

/-- One block behind the note. -/
def advance (w : Witness) (block : List CompactTx) : Option Witness :=
  (outputsOf block).foldlM (fun w output =>
    if output.cmu.length ≠ 32 then some w else t.witnessAppend w output.cmu) w

def endHeight (noteHeight chainTip : UInt64) : UInt64 :=
  if chainTip > noteHeight + 100 then noteHeight + 100 else chainTip

/-- The heights of a loop `for h := first; h <= last; h++`. -/
def heights (first last : UInt64) : List UInt64 :=
  (List.range (last.toNat + 1 - first.toNat)).map fun i => first + .ofNat i

def buildWitness (scanner : Scanner) (note : FoundNote) (chainTip : UInt64) : Option Bytes := do
  let treeState ← scanner.getTreeState (note.height - 1)
  let tree ← t.treeFromState treeState
  let noteBlock ← scanner.scanBlock note.height
  let (_, w) ← (outputsOf noteBlock).foldlM (appendOutput t note) (tree, none)
  let w ← w
  let w ← (heights (note.height + 1) (endHeight note.height chainTip)).foldlM (fun w h => do
    let block ← scanner.scanBlock h
    advance t w block) w
  t.witnessSerialize w

end BuildWitness

/-! ## The commitments behind a witness -/

def commitments (block : List CompactTx) : List Bytes :=
  ((outputsOf block).filter fun o => o.cmu.length = 32).map Output.cmu

/-- The chain up to a height. -/
def leavesUpTo (chain : UInt64 → List CompactTx) (height : UInt64) : List Bytes :=
  (List.range (height.toNat + 1)).flatMap fun h => commitments (chain (.ofNat h))

/-- The commitments that the witness of a note is built over. -/
def witnessLeaves (chain : UInt64 → List CompactTx) (note : FoundNote) (chainTip : UInt64) :
    List Bytes :=
  leavesUpTo chain (note.height - 1) ++ commitments (chain note.height) ++
    (heights (note.height + 1) (endHeight note.height chainTip)).flatMap fun h =>
      commitments (chain h)

/-- Where the last output of a list is that matches. -/
def lastMatch (p : Output → Bool) (outputs : List Output) : Option Nat :=
  (outputs.zipIdx.filter fun o => p o.1).getLast?.map Prod.snd

theorem lastMatch_concat (p : Output → Bool) (outputs : List Output) (o : Output) :
    lastMatch p (outputs ++ [o]) = if p o then some outputs.length else lastMatch p outputs := by
  unfold lastMatch
  rw [List.zipIdx_append, List.filter_append]
  by_cases h : p o <;> simp [h]

/-- The place of a note among the commitments of its block. -/
def placeInBlock (chain : UInt64 → List CompactTx) (note : FoundNote) : Option Nat :=
  lastMatch (matchesNote · note)
    ((outputsOf (chain note.height)).filter fun o => o.cmu.length = 32)

def notePosition (chain : UInt64 → List CompactTx) (note : FoundNote) : Option Nat :=
  (placeInBlock chain note).map ((leavesUpTo chain (note.height - 1)).length + ·)

/-! ## What the library's trees hold -/

/-- Trees and witnesses stand for lists of commitments. The root along the path of a witness, from
any commitment in the place of its own, is the root of the list with that commitment there. -/
structure TreeModel {Tree Witness Rng W : Type} (t : TreeCalls Tree Witness)
    (lib : SaplingLib Rng W) where
  leaves : Tree → List Bytes → Prop
  held : Witness → List Bytes → Prop
  position : Witness → Nat
  root : List Bytes → Bytes
  treeAppend : ∀ tree l c tree', leaves tree l → t.treeAppend tree c = some tree' →
    leaves tree' (l ++ [c])
  treeWitness : ∀ tree l w, leaves tree l → t.treeWitness tree = some w →
    held w l ∧ position w + 1 = l.length
  witnessAppend : ∀ w l c w', held w l → t.witnessAppend w c = some w' →
    held w' (l ++ [c]) ∧ position w' = position w
  path : ∀ w l data v p, held w l → t.witnessSerialize w = some data →
    lib.deserializeWitness data = .ok v → lib.path v = some p →
      ∀ c, lib.merkleRoot p c = root (l.set (position w) c)

section Library

variable {Node Tree Witness Rng W : Type} {trees : TreeLib Node Tree Witness}
  {lib : SaplingLib Rng W} {grants : Nat → Bool}

variable (trees grants) in
/-- The calls as the library answers them. -/
def libraryCalls : TreeCalls Tree Witness where
  treeFromState state := (FroztTree.saplingTreeFromState trees grants state).toOption
  treeAppend tree cmu := (FroztTree.saplingTreeAppend trees tree cmu).toOption
  treeWitness tree := (FroztTree.saplingTreeWitness trees tree).toOption
  witnessAppend w cmu := (FroztTree.saplingWitnessAppend trees w cmu).toOption
  witnessSerialize w := some (FroztTree.serializeWitness trees w)

/-- What is known of the library's trees is enough. -/
def libraryModel (doc : trees.Documented) (hroom : FroztTree.RoomForDepth grants)
    (c : trees.Commitments lib.merkleRoot) :
    TreeModel (libraryCalls trees grants) (lib.withTrees trees grants) where
  leaves := c.leaves
  held w l := trees.Appended w ∧ c.held w l
  position := c.position
  root := c.root
  treeAppend _ _ _ _ hl h := FroztTree.leaves_append c hl (toOption_eq_some.mp h)
  treeWitness tree l w hl h := by
    have hfrom := okOr_eq_ok.mp (toOption_eq_some.mp h)
    obtain ⟨hheld, hposition⟩ := c.fromTree _ _ _ hl hfrom
    exact ⟨⟨.fromTree hfrom, hheld⟩, hposition⟩
  witnessAppend _ _ _ _ hw h := FroztTree.held_append c hw (toOption_eq_some.mp h)
  path w l data v p hw hdata hv hp := by
    obtain rfl := Option.some.inj hdata
    have hpath := FroztTree.path_deserialize doc hroom hw.1 hv
    exact c.path w l p hw.2 (hpath.symm.trans hp)

end Library

/-- The server tells of this chain, or does not answer. -/
structure Scanner.Honest {Tree Witness Rng W : Type} {t : TreeCalls Tree Witness}
    {lib : SaplingLib Rng W} (scanner : Scanner) (model : TreeModel t lib)
    (chain : UInt64 → List CompactTx) : Prop where
  scanBlock : ∀ h block, scanner.scanBlock h = some block → block = chain h
  getTreeState : ∀ h state tree, scanner.getTreeState h = some state →
    t.treeFromState state = some tree → model.leaves tree (leavesUpTo chain h)

section Model

variable {Tree Witness Rng W : Type} {t : TreeCalls Tree Witness} {lib : SaplingLib Rng W}
  {model : TreeModel t lib} {chain : UInt64 → List CompactTx} {note : FoundNote}

variable (model) in
/-- The tree holds what was appended, and the witness is for the last match. -/
structure Tracks (note : FoundNote) (start : List Bytes) (seen : List Output)
    (st : Tree × Option Witness) : Prop where
  leaves : model.leaves st.1 (start ++ seen.map Output.cmu)
  witness : ∀ w, st.2 = some w → model.held w (start ++ seen.map Output.cmu) ∧
    ∃ place, lastMatch (matchesNote · note) seen = some place ∧
      model.position w = start.length + place

theorem Tracks.append {start : List Bytes} {seen : List Output} {st st' : Tree × Option Witness}
    {o : Output} (hst : Tracks model note start seen st) (hlen : o.cmu.length = 32)
    (h : appendOutput t note st o = some st') : Tracks model note start (seen ++ [o]) st' := by
  unfold appendOutput at h
  rw [if_neg (not_not.mpr hlen)] at h
  obtain ⟨tree, htree, h⟩ := Option.bind_eq_some_iff.mp h
  have happend : start ++ (seen ++ [o]).map Output.cmu =
      start ++ seen.map Output.cmu ++ [o.cmu] := by
    rw [List.map_append, List.append_assoc]
    rfl
  have hleaves : model.leaves tree (start ++ (seen ++ [o]).map Output.cmu) := by
    rw [happend]
    exact model.treeAppend _ _ _ _ hst.leaves htree
  split at h
  · next hmatch =>
    obtain ⟨w, hw, h⟩ := Option.bind_eq_some_iff.mp h
    obtain rfl := Option.some.inj h
    refine ⟨hleaves, ?_⟩
    rintro _ ⟨⟩
    obtain ⟨hheld, hpos⟩ := model.treeWitness _ _ _ hleaves hw
    refine ⟨hheld, seen.length, by rw [lastMatch_concat, if_pos hmatch], ?_⟩
    simp only [List.length_append, List.length_map, List.length_singleton] at hpos
    omega
  · next hmatch =>
    split at h
    · obtain rfl := Option.some.inj h
      exact ⟨hleaves, nofun⟩
    · next w hw =>
      obtain ⟨w', hw', h⟩ := Option.bind_eq_some_iff.mp h
      obtain rfl := Option.some.inj h
      refine ⟨hleaves, ?_⟩
      rintro _ ⟨⟩
      obtain ⟨hheld, place, hplace, hpos⟩ := hst.witness w hw
      obtain ⟨hheld', hpos'⟩ := model.witnessAppend _ _ _ _ hheld hw'
      refine ⟨?_, place, by rw [lastMatch_concat, if_neg hmatch, hplace], hpos'.trans hpos⟩
      rw [happend]
      exact hheld'

theorem Tracks.appendAll {start : List Bytes} {outputs seen : List Output}
    {st st' : Tree × Option Witness} (hst : Tracks model note start seen st)
    (h : outputs.foldlM (appendOutput t note) st = some st') :
    Tracks model note start (seen ++ outputs.filter fun o => o.cmu.length = 32) st' := by
  induction outputs generalizing seen st with
  | nil =>
    obtain rfl := Option.some.inj h
    rwa [List.filter_nil, List.append_nil]
  | cons o rest ih =>
    rw [List.foldlM_cons] at h
    obtain ⟨st₁, hst₁, h⟩ := Option.bind_eq_some_iff.mp h
    by_cases hlen : o.cmu.length = 32
    · have hnext := ih (hst.append hlen hst₁) h
      rwa [List.append_assoc, List.singleton_append, ← List.filter_cons_of_pos (by simpa using hlen)]
        at hnext
    · rw [List.filter_cons_of_neg (by simpa using hlen)]
      unfold appendOutput at hst₁
      rw [if_pos hlen] at hst₁
      obtain rfl := Option.some.inj hst₁
      exact ih hst h

theorem advance_ok {w w' : Witness} {block : List CompactTx} {l : List Bytes} (hw : model.held w l)
    (h : advance t w block = some w') :
    model.held w' (l ++ commitments block) ∧ model.position w' = model.position w := by
  unfold advance at h
  unfold commitments
  generalize outputsOf block = outputs at h ⊢
  induction outputs generalizing w l with
  | nil =>
    obtain rfl := Option.some.inj h
    rw [List.filter_nil, List.map_nil, List.append_nil]
    exact ⟨hw, rfl⟩
  | cons o rest ih =>
    rw [List.foldlM_cons] at h
    obtain ⟨w₁, hw₁, h⟩ := Option.bind_eq_some_iff.mp h
    split at hw₁
    · next hlen =>
      obtain rfl := Option.some.inj hw₁
      rw [List.filter_cons_of_neg (by simpa using hlen)]
      exact ih hw h
    · next hlen =>
      obtain ⟨hheld₁, hpos₁⟩ := model.witnessAppend _ _ _ _ hw hw₁
      obtain ⟨hheld, hpos⟩ := ih hheld₁ h
      rw [List.filter_cons_of_pos (by simpa using hlen), List.map_cons, List.append_cons]
      exact ⟨hheld, hpos.trans hpos₁⟩

theorem advanceAll_ok {scanner : Scanner} {blockAt : UInt64 → List CompactTx}
    (hscan : ∀ h block, scanner.scanBlock h = some block → block = blockAt h)
    {heights : List UInt64} {w w' : Witness} {l : List Bytes} (hw : model.held w l)
    (h : heights.foldlM (fun w h => do
      let block ← scanner.scanBlock h
      advance t w block) w = some w') :
    model.held w' (l ++ heights.flatMap fun h => commitments (blockAt h)) ∧
      model.position w' = model.position w := by
  induction heights generalizing w l with
  | nil =>
    obtain rfl := Option.some.inj h
    rw [List.flatMap_nil, List.append_nil]
    exact ⟨hw, rfl⟩
  | cons height rest ih =>
    rw [List.foldlM_cons] at h
    obtain ⟨w₁, hw₁, h⟩ := Option.bind_eq_some_iff.mp h
    obtain ⟨block, hblock, hw₁⟩ := Option.bind_eq_some_iff.mp hw₁
    obtain rfl := hscan _ _ hblock
    obtain ⟨hheld₁, hpos₁⟩ := advance_ok hw hw₁
    obtain ⟨hheld, hpos⟩ := ih hheld₁ h
    rw [List.flatMap_cons, ← List.append_assoc]
    exact ⟨hheld, hpos.trans hpos₁⟩

theorem buildWitness_ok {scanner : Scanner} (honest : scanner.Honest model chain)
    {chainTip : UInt64} {data : Bytes} (h : buildWitness t scanner note chainTip = some data) :
    ∃ w position, t.witnessSerialize w = some data ∧ notePosition chain note = some position ∧
      model.held w (witnessLeaves chain note chainTip) ∧ model.position w = position := by
  unfold buildWitness at h
  obtain ⟨state, hstate, h⟩ := Option.bind_eq_some_iff.mp h
  obtain ⟨tree, htree, h⟩ := Option.bind_eq_some_iff.mp h
  obtain ⟨block, hblock, h⟩ := Option.bind_eq_some_iff.mp h
  obtain rfl := honest.scanBlock _ _ hblock
  obtain ⟨⟨tree', w?⟩, hloop, h⟩ := Option.bind_eq_some_iff.mp h
  obtain ⟨w, hw, h⟩ := Option.bind_eq_some_iff.mp h
  obtain ⟨w', hw', h⟩ := Option.bind_eq_some_iff.mp h
  have hstart : Tracks model note (leavesUpTo chain (note.height - 1)) [] (tree, none) := by
    refine ⟨?_, nofun⟩
    rw [List.map_nil, List.append_nil]
    exact honest.getTreeState _ _ _ hstate htree
  obtain ⟨hheld, place, hplace, hpos⟩ := (hstart.appendAll hloop).witness w hw
  obtain ⟨hheld', hpos'⟩ := advanceAll_ok honest.scanBlock hheld hw'
  refine ⟨w', (leavesUpTo chain (note.height - 1)).length + place, h, ?_, hheld', hpos'.trans hpos⟩
  unfold notePosition placeInBlock
  rw [List.nil_append] at hplace
  rw [hplace]
  rfl

end Model

end Spend
