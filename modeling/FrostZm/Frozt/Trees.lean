import FrostZm.Ffi.Errors
import FrostZm.Frozt.Tx
import FrostZm.Lib.CrashReaders

/-!
# Commitment trees and witnesses as bytes

The native library and the WASM library each have readers of their own. The native ones bound the
counts that they read.
-/

open Crashes CrashReader

/-- What the readers and writers use of the libraries for trees and nodes. -/
structure TreeLib (Node Tree Witness : Type) where
  nodeFromBytes : Bytes → Option Node
  nodeToBytes : Node → Bytes
  left : Tree → Option Node
  right : Tree → Option Node
  parents : Tree → List (Option Node)
  /-- `CommitmentTree::from_parts`. -/
  treeFromParts : Option Node → Option Node → List (Option Node) → Option Tree
  /-- `CommitmentTree::append`. -/
  treeAppend : Tree → Node → Option Tree
  /-- `IncrementalWitness::from_tree`. -/
  fromTree : Tree → Option Witness
  tree : Witness → Tree
  filled : Witness → List Node
  cursor : Witness → Option Tree
  /-- `IncrementalWitness::from_parts`. -/
  fromParts : Tree → List Node → Option Tree → Option Witness
  append : Witness → Node → Option Witness
  root : Witness → Node
  path : Witness → Option Sapling.MerklePath

namespace FroztTree

def noteCommitmentTreeDepth : Nat := 32

/-- The text of an error at the end of the input. -/
def eof : String := "failed to fill whole buffer"

variable {Node Tree Witness : Type} (lib : TreeLib Node Tree Witness)

/-! ## What both libraries do -/

def readNode : CrashReader String Node := do
  let buf ← readExact eof 32
  okOr "invalid node" (lib.nodeFromBytes buf)

def readOptionalNode : CrashReader String (Option Node) := do
  let flag ← readU8 eof
  if flag = 0 then pure none
  else do
    let n ← readNode lib
    return some n

def writeOptionalNode : Option Node → Bytes
  | some n => 1 :: lib.nodeToBytes n
  | none => [0]

/-- A `usize` has so many bits. -/
def readCompactSize (bits : Nat) : CrashReader String Nat := do
  let first ← readU8 eof
  if first = 253 then do
    let b ← readExact eof 2
    return LittleEndian.value b % 2 ^ bits
  else if first = 254 then do
    let b ← readExact eof 4
    return LittleEndian.value b % 2 ^ bits
  else if first = 255 then do
    let b ← readExact eof 8
    return LittleEndian.value b % 2 ^ bits
  else return first.toNat % 2 ^ bits

def writeCompactSize (val : Nat) : Bytes :=
  if val < 253 then [.ofNat val]
  else if val ≤ 0xFFFF then 253 :: LittleEndian.bytesOf 2 val
  else if val ≤ 0xFFFFFFFF then 254 :: LittleEndian.bytesOf 4 val
  else 255 :: LittleEndian.bytesOf 8 val

/-- `Vec::with_capacity`. `grants` says for how many nodes there is memory. -/
def withCapacity {ε : Type} (grants : Nat → Bool) (n : Nat) : CrashReader ε Unit :=
  if grants n then pure () else stop (.crash .overflow)

def writeCommitmentTreeData (tree : Tree) : Bytes :=
  writeOptionalNode lib (lib.left tree) ++ writeOptionalNode lib (lib.right tree) ++
    writeCompactSize (lib.parents tree).length ++ (lib.parents tree).flatMap (writeOptionalNode lib)

def writeCursor : Option Tree → Bytes
  | some cursor => 1 :: writeCommitmentTreeData lib cursor
  | none => [0]

def serializeWitness (witness : Witness) : Bytes :=
  writeCommitmentTreeData lib (lib.tree witness) ++ writeCompactSize (lib.filled witness).length ++
    (lib.filled witness).flatMap lib.nodeToBytes ++ writeCursor lib (lib.cursor witness)

/-! ## The native readers -/

def readCommitmentTreeData (grants : Nat → Bool) : CrashReader String Tree := do
  let left ← readOptionalNode lib
  let right ← readOptionalNode lib
  let parentCount ← readCompactSize 64
  if parentCount > noteCommitmentTreeDepth then stop (.error "parent_count exceeds tree depth")
  else do
    withCapacity grants parentCount
    let parents ← many (readOptionalNode lib) parentCount
    okOr "invalid commitment tree" (lib.treeFromParts left right parents)

/-- `deserialize_witness`. -/
def readWitness (grants : Nat → Bool) : CrashReader LibError Witness := do
  let tree ← mapErr (fun _ => .saplingError) (readCommitmentTreeData lib grants)
  let filledCount ← mapErr (fun _ => .saplingError) (readCompactSize 64)
  if filledCount > noteCommitmentTreeDepth then stop (.error .saplingError)
  else do
    withCapacity grants filledCount
    let filled ← many (mapErr (fun _ => .saplingError) (readNode lib)) filledCount
    let cursorFlag ← mapErr (fun _ => .saplingError) (readU8 eof)
    let cursor ←
      if cursorFlag ≠ 0 then do
        let c ← mapErr (fun _ => .saplingError) (readCommitmentTreeData lib grants)
        pure (some c)
      else pure none
    okOr .saplingError (lib.fromParts tree filled cursor)

end FroztTree

/-! ## The WASM readers -/

namespace FroztWasmTree

open FroztTree

variable {Node Tree Witness : Type} (lib : TreeLib Node Tree Witness)

def readCommitmentTreeData (grants : Nat → Bool) : CrashReader String Tree := do
  let left ← readOptionalNode lib
  let right ← readOptionalNode lib
  let parentCount ← readCompactSize 32
  withCapacity grants parentCount
  let parents ← many (readOptionalNode lib) parentCount
  okOr "invalid commitment tree" (lib.treeFromParts left right parents)

/-- `deserialize_witness`. -/
def readWitness (grants : Nat → Bool) : CrashReader String Witness := do
  let tree ← mapErr (fun e => s!"deserialize tree: {e}") (readCommitmentTreeData lib grants)
  let filledCount ← mapErr (fun e => s!"deserialize filled count: {e}") (readCompactSize 32)
  withCapacity grants filledCount
  let filled ← many (mapErr (fun e => s!"deserialize filled node: {e}") (readNode lib)) filledCount
  let cursorFlag ← mapErr (fun e => s!"deserialize cursor flag: {e}") (readU8 eof)
  let cursor ←
    if cursorFlag ≠ 0 then do
      let c ← mapErr (fun e => s!"deserialize cursor: {e}") (readCommitmentTreeData lib grants)
      pure (some c)
    else pure none
  okOr "invalid witness parts" (lib.fromParts tree filled cursor)

end FroztWasmTree

/-! ## What is known of the library -/

/-- Both witnesses have the same tree, the same filled nodes and the same cursor. -/
structure TreeLib.SameParts {Node Tree Witness : Type} (lib : TreeLib Node Tree Witness)
    (w w' : Witness) : Prop where
  tree : lib.tree w = lib.tree w'
  filled : lib.filled w = lib.filled w'
  cursor : lib.cursor w = lib.cursor w'

/-- Witnesses that come from a tree by appending commitments. -/
inductive TreeLib.Appended {Node Tree Witness : Type} (lib : TreeLib Node Tree Witness) :
    Witness → Prop where
  | fromTree {t : Tree} {w : Witness} : lib.fromTree t = some w → lib.Appended w
  | append {w w' : Witness} {n : Node} : lib.Appended w → lib.append w n = some w' → lib.Appended w'

/-- The documented behaviour: trees have a depth, `from_parts` rebuilds a value from its parts, and
a witness is no more than its parts. -/
structure TreeLib.Documented {Node Tree Witness : Type} (lib : TreeLib Node Tree Witness) : Prop where
  length_toBytes : ∀ n, (lib.nodeToBytes n).length = 32
  fromBytes_toBytes : ∀ n, lib.nodeFromBytes (lib.nodeToBytes n) = some n
  length_parents : ∀ t, (lib.parents t).length ≤ FroztTree.noteCommitmentTreeDepth
  length_filled : ∀ w, lib.Appended w → (lib.filled w).length ≤ FroztTree.noteCommitmentTreeDepth
  treeFromParts : ∀ t, lib.treeFromParts (lib.left t) (lib.right t) (lib.parents t) = some t
  fromParts : ∀ w, ∃ w', lib.fromParts (lib.tree w) (lib.filled w) (lib.cursor w) = some w' ∧
    lib.SameParts w w'
  root : ∀ w w', lib.SameParts w w' → lib.root w = lib.root w'
  path : ∀ w w', lib.SameParts w w' → lib.path w = lib.path w'
  append : ∀ w w' n, lib.SameParts w w' → Option.Rel lib.SameParts (lib.append w n) (lib.append w' n)
