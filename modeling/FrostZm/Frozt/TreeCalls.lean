import FrostZm.Frozt.TreeReaders

/-!
# Growing trees and witnesses

The calls that make the witness of a note. A tree state is read, commitments are appended, and the
witness is written down for the builder of the transaction.
-/

open Crashes CrashReader

namespace FroztTree

/-- A digit of either case. -/
def hexDigit (c : UInt8) : Option UInt8 :=
  if 48 ≤ c ∧ c ≤ 57 then some (c - 48)
  else if 97 ≤ c ∧ c ≤ 102 then some (c - 87)
  else if 65 ≤ c ∧ c ≤ 70 then some (c - 55)
  else none

/-- `hex::decode`. -/
def hexDecode : Bytes → Option Bytes
  | [] => some []
  | [_] => none
  | high :: low :: rest => do
    let high ← hexDigit high
    let low ← hexDigit low
    let rest ← hexDecode rest
    return (16 * high + low) :: rest

/-- A panic is caught. -/
def withErrorHandler {α : Type} : Run LibError α → Result α
  | .ok a => .ok a
  | .error (.error e) => .error (e : Fault)
  | .error (.crash _) => .error (LibError.unknownError : Fault)

variable {Node Tree Witness : Type} (lib : TreeLib Node Tree Witness) (grants : Nat → Bool)

def parseCmu (data : Bytes) : Result Node := do
  failIf (data.length ≠ 32) .invalidBufferSize
  okOr .saplingError (lib.nodeFromBytes data)

-- text that is not UTF-8 is no hexadecimal text either, and has the same code
def saplingTreeFromState (treeStateHex : Bytes) : Result Tree := do
  let bytes ← okOr .serializationError (hexDecode treeStateHex)
  withErrorHandler (valueOf (mapErr sapling (readCommitmentTreeData lib grants)) bytes)

def saplingTreeAppend (tree : Tree) (cmu : Bytes) : Result Tree := do
  let node ← parseCmu lib cmu
  okOr .saplingError (lib.treeAppend tree node)

def saplingTreeWitness (tree : Tree) : Result Witness := okOr .saplingError (lib.fromTree tree)

def saplingWitnessAppend (witness : Witness) (cmu : Bytes) : Result Witness := do
  let node ← parseCmu lib cmu
  okOr .saplingError (lib.append witness node)

def deserializeWitness (data : Bytes) : Result Witness :=
  withErrorHandler (valueOf (readWitness lib grants) data)

end FroztTree

/-- Trees and witnesses stand for lists of commitments. The root along the path of a witness, from
any commitment in the place of its own, is the root of the list with that commitment there. -/
structure TreeLib.Commitments {Node Tree Witness : Type} (lib : TreeLib Node Tree Witness)
    (merkleRoot : Sapling.MerklePath → Bytes → Bytes) where
  leaves : Tree → List Bytes → Prop
  held : Witness → List Bytes → Prop
  position : Witness → Nat
  root : List Bytes → Bytes
  toBytes_fromBytes : ∀ b n, lib.nodeFromBytes b = some n → lib.nodeToBytes n = b
  treeAppend : ∀ t l n t', leaves t l → lib.treeAppend t n = some t' →
    leaves t' (l ++ [lib.nodeToBytes n])
  fromTree : ∀ t l w, leaves t l → lib.fromTree t = some w →
    held w l ∧ position w + 1 = l.length
  append : ∀ w l n w', held w l → lib.append w n = some w' →
    held w' (l ++ [lib.nodeToBytes n]) ∧ position w' = position w
  path : ∀ w l path, held w l → lib.path w = some path →
    ∀ c, merkleRoot path c = root (l.set (position w) c)

namespace FroztTree

variable {Node Tree Witness : Type} {lib : TreeLib Node Tree Witness} {grants : Nat → Bool}
  {merkleRoot : Sapling.MerklePath → Bytes → Bytes}

theorem parseCmu_ok (c : lib.Commitments merkleRoot) {data : Bytes} {node : Node}
    (h : parseCmu lib data = .ok node) : lib.nodeToBytes node = data := by
  obtain ⟨_, -, h⟩ := bind_eq_ok.mp h
  exact c.toBytes_fromBytes _ _ (okOr_eq_ok.mp h)

theorem leaves_append (c : lib.Commitments merkleRoot) {t t' : Tree} {l : List Bytes} {cmu : Bytes}
    (hl : c.leaves t l) (h : saplingTreeAppend lib t cmu = .ok t') : c.leaves t' (l ++ [cmu]) := by
  obtain ⟨node, hnode, h⟩ := bind_eq_ok.mp h
  rw [← parseCmu_ok c hnode]
  exact c.treeAppend _ _ _ _ hl (okOr_eq_ok.mp h)

theorem held_append (c : lib.Commitments merkleRoot) {w w' : Witness} {l : List Bytes} {cmu : Bytes}
    (hw : lib.Appended w ∧ c.held w l) (h : saplingWitnessAppend lib w cmu = .ok w') :
    (lib.Appended w' ∧ c.held w' (l ++ [cmu])) ∧ c.position w' = c.position w := by
  obtain ⟨node, hnode, h⟩ := bind_eq_ok.mp h
  have happend := okOr_eq_ok.mp h
  obtain ⟨hheld, hposition⟩ := c.append _ _ _ _ hw.2 happend
  rw [← parseCmu_ok c hnode]
  exact ⟨⟨hw.1.append happend, hheld⟩, hposition⟩

/-- A witness is read back by the builder with the path that it had. -/
theorem path_deserialize (doc : lib.Documented) (hroom : RoomForDepth grants) {w v : Witness}
    (hw : lib.Appended w) (h : deserializeWitness lib grants (serializeWitness lib w) = .ok v) :
    lib.path v = lib.path w := by
  obtain ⟨w', hw', hparts⟩ := doc.fromParts w
  have hread := (reads_witness doc hroom hw hw').valueOf
  unfold deserializeWitness at h
  rw [hread] at h
  obtain rfl := Except.ok.inj h
  exact (doc.path _ _ hparts).symm

end FroztTree

/-- The library whose builders read witnesses as this crate does. -/
def SaplingLib.withTrees {Rng W Node Tree Witness : Type} (lib : SaplingLib Rng W)
    (trees : TreeLib Node Tree Witness) (grants : Nat → Bool) : SaplingLib Rng Witness :=
  { lib with
    deserializeWitness := FroztTree.deserializeWitness trees grants
    path := trees.path }
