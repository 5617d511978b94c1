import FrostZm.Frozt.Trees

/-!
# Reference trees

Trees and witnesses that grow as those of the library do, with a stand-in for the hash: a pair of
nodes hashes to the node on the left.
-/

namespace Reference

/-- The order of the field of a node. -/
def nodeOrder : Nat := 0x73eda753299d7d483339d80809a1d80553bda402fffe5bfeffffffff00000001

abbrev Node := { b : Bytes // b.length = 32 ∧ LittleEndian.value b < nodeOrder }

def nodeFromBytes (b : Bytes) : Option Node :=
  if h : b.length = 32 ∧ LittleEndian.value b < nodeOrder then some ⟨b, h⟩ else none

def combine (left _right : Node) : Node := left

structure CommitmentTree where
  left : Option Node
  right : Option Node
  parents : List (Option Node)
  length_parents : parents.length < FroztTree.noteCommitmentTreeDepth

namespace CommitmentTree

def fromParts (left right : Option Node) (parents : List (Option Node)) : Option CommitmentTree :=
  if h : parents.length < FroztTree.noteCommitmentTreeDepth then some ⟨left, right, parents, h⟩
  else none

def empty : CommitmentTree := ⟨none, none, [], by decide⟩

/-- The parents after a full pair has been combined. -/
def carry (combined : Node) : List (Option Node) → List (Option Node)
  | [] => [some combined]
  | none :: parents => some combined :: parents
  | some p :: parents => none :: carry (combine p combined) parents

def append (t : CommitmentTree) (node : Node) : Option CommitmentTree :=
  match t.left, t.right with
  | none, _ => some { t with left := some node }
  | some _, none => some { t with right := some node }
  | some l, some r => fromParts (some node) none (carry (combine l r) t.parents)

def isEmpty (t : CommitmentTree) : Bool := t.left.isNone && t.right.isNone

/-- With `2 ^ depth` leaves. -/
def isComplete (t : CommitmentTree) (depth : Nat) : Bool :=
  if depth = 0 then t.left.isSome && t.right.isNone && t.parents.isEmpty
  else t.left.isSome && t.right.isSome && t.parents.length == depth - 1 && t.parents.all Option.isSome

/-- The first leaf, which all others are combined behind. -/
def root (t : CommitmentTree) : Node :=
  ((t.left :: t.parents).filterMap id).getLast?.getD ⟨List.replicate 32 0, by decide⟩

def size (t : CommitmentTree) : Nat :=
  (t.left :: t.right :: t.parents).zipIdx.foldl
    (fun n p => if p.1.isSome then n + 2 ^ (p.2 - 1) else n) 0

end CommitmentTree

structure IncrementalWitness where
  tree : CommitmentTree
  filled : List Node
  cursor : Option CommitmentTree
  not_empty : tree.isEmpty = false

namespace IncrementalWitness

def fromParts (tree : CommitmentTree) (filled : List Node) (cursor : Option CommitmentTree) :
    Option IncrementalWitness :=
  if h : tree.isEmpty = false then some ⟨tree, filled, cursor, h⟩ else none

/-- The level of the free place behind so many free places. -/
def freeLevel : List (Option Node) → Nat → Nat → Nat
  | [], level, skip => level + skip
  | some _ :: nodes, level, skip => freeLevel nodes (level + 1) skip
  | none :: _, level, 0 => level
  | none :: nodes, level, skip + 1 => freeLevel nodes (level + 1) skip

def nextDepth (w : IncrementalWitness) : Nat :=
  freeLevel (w.tree.right :: w.tree.parents) 0 w.filled.length

def append (w : IncrementalWitness) (node : Node) : Option IncrementalWitness :=
  if w.nextDepth ≥ FroztTree.noteCommitmentTreeDepth then none
  else if w.nextDepth = 0 then some { w with filled := w.filled ++ [node] }
  else
    match (w.cursor.getD .empty).append node with
    | none => none
    | some cursor =>
      if cursor.isComplete w.nextDepth then
        some { w with filled := w.filled ++ [cursor.root], cursor := none }
      else some { w with cursor := some cursor }

def path (w : IncrementalWitness) : Sapling.MerklePath where
  position := .ofNat (w.tree.size - 1)
  authPath := (w.tree.parents.filterMap id ++ w.filled).map Subtype.val

theorem le_freeLevel (nodes : List (Option Node)) (level skip : Nat) :
    level + skip ≤ freeLevel nodes level skip := by
  induction nodes generalizing level skip with
  | nil => exact le_refl _
  | cons node nodes ih =>
    cases node with
    | some n =>
      have h := ih (level + 1) skip
      unfold freeLevel
      omega
    | none =>
      cases skip with
      | zero => exact le_refl _
      | succ skip =>
        have h := ih (level + 1) skip
        unfold freeLevel
        omega

end IncrementalWitness

def treeLib : TreeLib Node CommitmentTree IncrementalWitness where
  nodeFromBytes := nodeFromBytes
  nodeToBytes := Subtype.val
  left := CommitmentTree.left
  right := CommitmentTree.right
  parents := CommitmentTree.parents
  treeFromParts := CommitmentTree.fromParts
  treeAppend := CommitmentTree.append
  fromTree t := IncrementalWitness.fromParts t [] none
  tree := IncrementalWitness.tree
  filled := IncrementalWitness.filled
  cursor := IncrementalWitness.cursor
  fromParts := IncrementalWitness.fromParts
  append := IncrementalWitness.append
  root w := w.tree.root
  path w := some w.path

theorem eq_of_sameParts {w w' : IncrementalWitness} (h : treeLib.SameParts w w') : w = w' := by
  cases w
  cases w'
  obtain ⟨htree, hfilled, hcursor⟩ := h
  obtain rfl : _ = _ := htree
  obtain rfl : _ = _ := hfilled
  obtain rfl : _ = _ := hcursor
  rfl

theorem length_filled_append {w w' : IncrementalWitness} {node : Node} (h : w.append node = some w') :
    w'.filled.length ≤ FroztTree.noteCommitmentTreeDepth ∨ w'.filled = w.filled := by
  have hlevel := IncrementalWitness.le_freeLevel (w.tree.right :: w.tree.parents) 0 w.filled.length
  unfold IncrementalWitness.append at h
  split at h
  · cases h
  · next hdepth =>
    have hroom : w.filled.length + 1 ≤ FroztTree.noteCommitmentTreeDepth := by
      unfold IncrementalWitness.nextDepth at hdepth
      omega
    split at h
    · obtain rfl := Option.some.inj h
      exact .inl (by rwa [List.length_append])
    split at h
    · cases h
    split at h
    · obtain rfl := Option.some.inj h
      exact .inl (by rwa [List.length_append])
    · obtain rfl := Option.some.inj h
      exact .inr rfl

theorem length_filled {w : IncrementalWitness} (h : treeLib.Appended w) :
    w.filled.length ≤ FroztTree.noteCommitmentTreeDepth := by
  induction h with
  | @fromTree t w ht =>
    unfold treeLib IncrementalWitness.fromParts at ht
    dsimp only at ht
    split at ht
    · obtain rfl := Option.some.inj ht
      exact Nat.zero_le _
    · cases ht
  | @append w w' n hw happend ih =>
    rcases length_filled_append happend with hle | heq
    · exact hle
    · rwa [heq]

theorem treeLib_documented : treeLib.Documented where
  length_toBytes n := n.2.1
  fromBytes_toBytes n := dif_pos n.2
  length_parents t := Nat.le_of_lt t.length_parents
  length_filled _ := length_filled
  treeFromParts t := dif_pos t.length_parents
  fromParts w := ⟨w, dif_pos w.not_empty, ⟨rfl, rfl, rfl⟩⟩
  root w w' h := by rw [eq_of_sameParts h]
  path w w' h := by rw [eq_of_sameParts h]
  append w w' n h := by
    rw [eq_of_sameParts h]
    cases treeLib.append w' n with
    | none => exact .none
    | some v => exact .some ⟨rfl, rfl, rfl⟩

/-- A vector of nodes has less than `2 ^ 31` bytes. -/
def memory (n : Nat) : Bool := n * 40 < 2 ^ 31

end Reference
