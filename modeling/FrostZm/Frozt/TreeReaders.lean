import FrostZm.Frozt.ReferenceTrees

/-!
# What the readers of trees and witnesses make of bytes

What was written is read back by both libraries. On other bytes they differ where a count is read
that the native readers refuse.
-/

open Crashes CrashReader

namespace FroztTree

variable {Node Tree Witness : Type} {lib : TreeLib Node Tree Witness} {grants : Nat → Bool}

/-! ## Reading back -/

/-- Whatever is appended to both, both take it or both refuse it, and they have the same root and
the same path with the same position. -/
def SameFuture (lib : TreeLib Node Tree Witness) (w w' : Witness) : Prop :=
  ∀ cmus : List Node, Option.Rel (fun v v' => lib.root v = lib.root v' ∧ lib.path v = lib.path v')
    (cmus.foldlM lib.append w) (cmus.foldlM lib.append w')

theorem reads_node (doc : lib.Documented) (n : Node) : Reads (readNode lib) (lib.nodeToBytes n) n := by
  unfold readNode
  refine (reads_readExact eof (doc.length_toBytes n)).bind_nil ?_
  rw [doc.fromBytes_toBytes]
  exact reads_pure

theorem reads_optionalNode (doc : lib.Documented) (n : Option Node) :
    Reads (readOptionalNode lib) (writeOptionalNode lib n) n := by
  unfold readOptionalNode
  cases n with
  | none => exact (reads_readU8 eof 0).bind_nil reads_pure
  | some n => exact (reads_readU8 eof 1).bind ((reads_node doc n).bind_nil reads_pure)

theorem reads_compactSize {bits n : Nat} (hn : n < 253) (hbits : n < 2 ^ bits) :
    Reads (readCompactSize bits) (writeCompactSize n) n := by
  have hbyte : (UInt8.ofNat n).toNat = n := UInt8.toNat_ofNat_of_lt' (hn.trans (by decide))
  have hne : ∀ k : UInt8, 253 ≤ k.toNat → UInt8.ofNat n ≠ k := by
    rintro k hk rfl
    omega
  unfold readCompactSize writeCompactSize
  rw [if_pos hn]
  refine (reads_readU8 eof _).bind_nil ?_
  rw [if_neg (hne 253 (by decide)), if_neg (hne 254 (by decide)), if_neg (hne 255 (by decide)),
    hbyte, Nat.mod_eq_of_lt hbits]
  exact reads_pure

theorem reads_withCapacity {ε : Type} {n : Nat} (h : grants n = true) :
    Reads (withCapacity grants n : CrashReader ε Unit) [] () := by
  unfold withCapacity
  rw [if_pos h]
  exact reads_pure

/-- There is memory for as many nodes as a tree is deep. -/
def RoomForDepth (grants : Nat → Bool) : Prop := ∀ n ≤ noteCommitmentTreeDepth, grants n = true

theorem reads_tree (doc : lib.Documented) (hroom : RoomForDepth grants) (t : Tree) :
    Reads (readCommitmentTreeData lib grants) (writeCommitmentTreeData lib t) t := by
  have hcount := doc.length_parents t
  have hlt : (lib.parents t).length < 253 := lt_of_le_of_lt hcount (by decide)
  unfold readCommitmentTreeData writeCommitmentTreeData
  rw [List.append_assoc, List.append_assoc]
  refine (reads_optionalNode doc _).bind ((reads_optionalNode doc _).bind
    ((reads_compactSize hlt (hlt.trans (by decide))).bind ?_))
  rw [if_neg (Nat.not_lt.mpr hcount)]
  refine (reads_withCapacity (hroom _ hcount)).nil_bind
    ((Reads.many fun n _ => reads_optionalNode doc n).bind_nil ?_)
  rw [doc.treeFromParts]
  exact reads_pure

theorem reads_wasm_tree (doc : lib.Documented) (hroom : RoomForDepth grants) (t : Tree) :
    Reads (FroztWasmTree.readCommitmentTreeData lib grants) (writeCommitmentTreeData lib t) t := by
  have hcount := doc.length_parents t
  have hlt : (lib.parents t).length < 253 := lt_of_le_of_lt hcount (by decide)
  unfold FroztWasmTree.readCommitmentTreeData writeCommitmentTreeData
  rw [List.append_assoc, List.append_assoc]
  refine (reads_optionalNode doc _).bind ((reads_optionalNode doc _).bind
    ((reads_compactSize hlt (hlt.trans (by decide))).bind
      ((reads_withCapacity (hroom _ hcount)).nil_bind
        ((Reads.many fun n _ => reads_optionalNode doc n).bind_nil ?_))))
  rw [doc.treeFromParts]
  exact reads_pure

/-! ## Both witness readers from the filled nodes on -/

section Rest

variable {ε : Type} (lib : TreeLib Node Tree Witness) (readTree : CrashReader String Tree)
  (onNode onFlag onCursor : String → ε) (invalid : ε)

def close (tree : Tree) (filled : List Node) (cursor : Option Tree) : CrashReader ε Witness :=
  okOr invalid (lib.fromParts tree filled cursor)

def readCursor (tree : Tree) (filled : List Node) : CrashReader ε Witness := do
  let flag ← mapErr onFlag (readU8 eof)
  if flag ≠ 0 then do
    let c ← mapErr onCursor readTree
    close lib invalid tree filled (some c)
  else close lib invalid tree filled none

def readFilled (grants : Nat → Bool) (tree : Tree) (filledCount : Nat) : CrashReader ε Witness := do
  withCapacity grants filledCount
  let filled ← mapErr onNode (many (readNode lib) filledCount)
  readCursor lib readTree onFlag onCursor invalid tree filled

end Rest

def sapling (_ : String) : LibError := .saplingError

theorem readWitness_eq (lib : TreeLib Node Tree Witness) (grants : Nat → Bool) :
    readWitness lib grants = (do
      let tree ← mapErr sapling (readCommitmentTreeData lib grants)
      let filledCount ← mapErr sapling (readCompactSize 64)
      if filledCount > noteCommitmentTreeDepth then stop (.error .saplingError)
      else
        readFilled lib (readCommitmentTreeData lib grants) sapling sapling sapling .saplingError grants
          tree filledCount) := by
  unfold readWitness readFilled readCursor close
  simp only [many_mapErr]
  rfl

theorem readWasmWitness_eq (lib : TreeLib Node Tree Witness) (grants : Nat → Bool) :
    FroztWasmTree.readWitness lib grants = (do
      let tree ← mapErr (fun e => s!"deserialize tree: {e}")
        (FroztWasmTree.readCommitmentTreeData lib grants)
      let filledCount ← mapErr (fun e => s!"deserialize filled count: {e}") (readCompactSize 32)
      readFilled lib (FroztWasmTree.readCommitmentTreeData lib grants)
        (fun e => s!"deserialize filled node: {e}") (fun e => s!"deserialize cursor flag: {e}")
        (fun e => s!"deserialize cursor: {e}") "invalid witness parts" grants tree filledCount) := by
  unfold FroztWasmTree.readWitness readFilled readCursor close
  simp only [many_mapErr]
  rfl

theorem serializeWitness_eq (w : Witness) : serializeWitness lib w =
    writeCommitmentTreeData lib (lib.tree w) ++ (writeCompactSize (lib.filled w).length ++
      ((lib.filled w).flatMap lib.nodeToBytes ++ writeCursor lib (lib.cursor w))) := by
  unfold serializeWitness
  simp only [List.append_assoc]

section

variable {ε : Type} {readTree : CrashReader String Tree} {onNode onFlag onCursor : String → ε}
  {invalid : ε}

theorem reads_cursor (htree : ∀ t, Reads readTree (writeCommitmentTreeData lib t) t) {t : Tree}
    {filled : List Node} {cursor : Option Tree} {w : Witness}
    (hw : lib.fromParts t filled cursor = some w) :
    Reads (readCursor lib readTree onFlag onCursor invalid t filled) (writeCursor lib cursor) w := by
  have hclose : Reads (close lib invalid t filled cursor) [] w := by
    unfold close
    rw [hw]
    exact reads_pure
  unfold readCursor
  cases cursor with
  | none => exact ((reads_readU8 eof 0).mapErr onFlag).bind_nil hclose
  | some c =>
    exact ((reads_readU8 eof 1).mapErr onFlag).bind (((htree c).mapErr onCursor).bind_nil hclose)

theorem reads_filled (doc : lib.Documented) (hroom : RoomForDepth grants)
    (htree : ∀ t, Reads readTree (writeCommitmentTreeData lib t) t) {t : Tree} {filled : List Node}
    (hlength : filled.length ≤ noteCommitmentTreeDepth) {cursor : Option Tree} {w : Witness}
    (hw : lib.fromParts t filled cursor = some w) :
    Reads (readFilled lib readTree onNode onFlag onCursor invalid grants t filled.length)
      (filled.flatMap lib.nodeToBytes ++ writeCursor lib cursor) w := by
  have hnodes := (Reads.many (l := filled) fun n _ => reads_node doc n).mapErr onNode
  unfold readFilled
  exact (reads_withCapacity (hroom _ hlength)).nil_bind (hnodes.bind (reads_cursor htree hw))

end

variable {native wasm : Nat → Bool}

theorem reads_witness (doc : lib.Documented) (hroom : RoomForDepth grants) {w w' : Witness}
    (hw : lib.Appended w)
    (hw' : lib.fromParts (lib.tree w) (lib.filled w) (lib.cursor w) = some w') :
    Reads (readWitness lib grants) (serializeWitness lib w) w' := by
  have hcount := doc.length_filled w hw
  have hlt : (lib.filled w).length < 253 := lt_of_le_of_lt hcount (by decide)
  rw [readWitness_eq, serializeWitness_eq]
  refine ((reads_tree doc hroom _).mapErr sapling).bind
    (((reads_compactSize hlt (hlt.trans (by decide))).mapErr sapling).bind ?_)
  rw [if_neg (Nat.not_lt.mpr hcount)]
  exact reads_filled doc hroom (reads_tree doc hroom) hcount hw'

theorem reads_wasm_witness (doc : lib.Documented) (hroom : RoomForDepth grants) {w w' : Witness}
    (hw : lib.Appended w)
    (hw' : lib.fromParts (lib.tree w) (lib.filled w) (lib.cursor w) = some w') :
    Reads (FroztWasmTree.readWitness lib grants) (serializeWitness lib w) w' := by
  have hcount := doc.length_filled w hw
  have hlt : (lib.filled w).length < 253 := lt_of_le_of_lt hcount (by decide)
  rw [readWasmWitness_eq, serializeWitness_eq]
  exact ((reads_wasm_tree doc hroom _).mapErr _).bind
    (((reads_compactSize hlt (hlt.trans (by decide))).mapErr _).bind
      (reads_filled doc hroom (reads_wasm_tree doc hroom) hcount hw'))

theorem sameFuture_of_sameParts (doc : lib.Documented) {w w' : Witness} (h : lib.SameParts w w') :
    SameFuture lib w w' := by
  intro cmus
  induction cmus generalizing w w' with
  | nil => exact .some ⟨doc.root w w' h, doc.path w w' h⟩
  | cons n cmus ih =>
    have happend := doc.append w w' n h
    rw [List.foldlM_cons, List.foldlM_cons]
    generalize lib.append w n = x at happend ⊢
    generalize lib.append w' n = y at happend ⊢
    cases happend with
    | some hsame => exact ih hsame
    | none => exact .none

/-! ## The readers on any bytes -/

/-- What both tree readers read first: the nodes on the left and on the right, and the count. -/
def readHeader (lib : TreeLib Node Tree Witness) :
    CrashReader String (Option Node × Option Node × Nat) := do
  let left ← readOptionalNode lib
  let right ← readOptionalNode lib
  let parentCount ← readCompactSize 64
  return (left, right, parentCount)

/-- Both tree readers behind the count. -/
def readParents (lib : TreeLib Node Tree Witness) (grants : Nat → Bool) (n : Nat)
    (left right : Option Node) : CrashReader String Tree := do
  withCapacity grants n
  let parents ← many (readOptionalNode lib) n
  okOr "invalid commitment tree" (lib.treeFromParts left right parents)

/-- With 32 bits the same bytes say the low half of the number. -/
theorem readCompactSize_wasm :
    readCompactSize 32 = (do let n ← readCompactSize 64; return n % 2 ^ 32) := by
  have hdvd : 2 ^ 32 ∣ 2 ^ 64 := Nat.pow_dvd_pow 2 (by decide)
  unfold readCompactSize
  rw [bind_assoc]
  congr 1
  funext first
  split
  · simp only [bind_assoc, pure_bind, Nat.mod_mod_of_dvd _ hdvd]
  split
  · simp only [bind_assoc, pure_bind, Nat.mod_mod_of_dvd _ hdvd]
  split
  · simp only [bind_assoc, pure_bind, Nat.mod_mod_of_dvd _ hdvd]
  · simp only [pure_bind, Nat.mod_mod_of_dvd _ hdvd]

theorem readTree_eq (lib : TreeLib Node Tree Witness) (grants : Nat → Bool) :
    readCommitmentTreeData lib grants = readHeader lib >>= fun h =>
      if h.2.2 > noteCommitmentTreeDepth then stop (.error "parent_count exceeds tree depth")
      else readParents lib grants h.2.2 h.1 h.2.1 := by
  unfold readCommitmentTreeData readHeader readParents
  simp only [bind_assoc, pure_bind]

theorem readWasmTree_eq (lib : TreeLib Node Tree Witness) (grants : Nat → Bool) :
    FroztWasmTree.readCommitmentTreeData lib grants = readHeader lib >>= fun h =>
      readParents lib grants (h.2.2 % 2 ^ 32) h.1 h.2.1 := by
  unfold FroztWasmTree.readCommitmentTreeData readHeader readParents
  rw [readCompactSize_wasm]
  simp only [bind_assoc, pure_bind]

theorem calm_node (lib : TreeLib Node Tree Witness) : Calm (readNode lib) := by
  refine (calm_readExact eof 32).bind fun buf => ?_
  cases lib.nodeFromBytes buf with
  | some n => exact calm_pure n
  | none => exact calm_stop _

theorem calm_optionalNode (lib : TreeLib Node Tree Witness) : Calm (readOptionalNode lib) := by
  refine (calm_readU8 eof).bind fun flag => ?_
  split
  · exact calm_pure none
  · exact (calm_node lib).bind fun n => calm_pure (some n)

theorem calm_compactSize (bits : Nat) : Calm (readCompactSize bits) := by
  refine (calm_readU8 eof).bind fun first => ?_
  split
  · exact (calm_readExact eof 2).bind fun b => calm_pure _
  split
  · exact (calm_readExact eof 4).bind fun b => calm_pure _
  split
  · exact (calm_readExact eof 8).bind fun b => calm_pure _
  · exact calm_pure _

theorem calm_header (lib : TreeLib Node Tree Witness) : Calm (readHeader lib) :=
  (calm_optionalNode lib).bind fun _ => (calm_optionalNode lib).bind fun _ =>
    (calm_compactSize 64).bind fun _ => calm_pure _

/-- So many parents do not come to a tree behind which reading could go on as `next` excludes. -/
structure Unfinished (lib : TreeLib Node Tree Witness) (grants : Nat → Bool) (left right : Option Node)
    (n : Nat) (s : Bytes) (next : Tree → Bytes → Prop) : Prop where
  granted : grants n = true
  parents : ∀ ps rest tree, many (readOptionalNode lib) n s = .ok (ps, rest) →
    lib.treeFromParts left right ps = some tree → next tree rest

section

variable {ε ε' β : Type} {left right : Option Node} {n : Nat} {s : Bytes}

theorem withCapacity_granted (h : grants n = true) :
    (withCapacity grants n : CrashReader ε Unit) = pure () :=
  if_pos h

theorem not_refused_withCapacity (h : grants n = false) (k : Unit → CrashReader ε β) :
    ¬ Refused ((withCapacity grants n >>= k) s) := by
  unfold withCapacity
  rw [h]
  rintro ⟨e, he⟩
  cases he

theorem refused_withCapacity_iff (k : Unit → CrashReader ε β) :
    Refused ((withCapacity grants n >>= k) s) ↔ grants n = true ∧ Refused (k () s) := by
  cases h : grants n with
  | false => exact iff_of_false (not_refused_withCapacity h k) fun hk => nomatch hk.1
  | true =>
    rw [withCapacity_granted h, pure_bind]
    exact (and_iff_right rfl).symm

theorem refused_parents_iff (f : String → ε) (k : Tree → CrashReader ε β) :
    Refused ((mapErr f (readParents lib grants n left right) >>= k) s) ↔
      Unfinished lib grants left right n s fun tree rest => Refused (k tree rest) := by
  have hcapacity : mapErr f (withCapacity grants n) = withCapacity grants n := by
    unfold withCapacity
    split
    · rfl
    · rfl
  have hmany : ∀ k' : List (Option Node) → CrashReader ε β,
      Refused ((mapErr f (many (readOptionalNode lib) n) >>= k') s) ↔
        ∀ ps rest, many (readOptionalNode lib) n s = .ok (ps, rest) → Refused (k' ps rest) := by
    intro k'
    rw [refused_bind_iff (((calm_optionalNode lib).many n).mapErr f)]
    simp only [CrashReader.mapErr_eq_ok]
  unfold readParents
  rw [mapErr_bind, bind_assoc, hcapacity, refused_withCapacity_iff, mapErr_bind, bind_assoc, hmany]
  refine ⟨fun h => ⟨h.1, fun ps rest tree hps htree => ?_⟩, fun h => ⟨h.granted, fun ps rest hps => ?_⟩⟩
  · have hrefused := h.2 ps rest hps
    rw [htree] at hrefused
    exact hrefused
  · cases htree : lib.treeFromParts left right ps with
    | none => exact ⟨_, rfl⟩
    | some tree => exact h.parents ps rest tree hps htree

theorem alike_parents_iff {native wasm : Nat → Bool} (hnative : native n = true)
    (hwasm : wasm n = true) (f : String → ε) (g : String → ε') (k : Tree → CrashReader ε β)
    (k' : Tree → CrashReader ε' β) :
    Alike ((mapErr f (readParents lib native n left right) >>= k) s)
      ((mapErr g (readParents lib wasm n left right) >>= k') s) ↔
      ∀ ps rest tree, many (readOptionalNode lib) n s = .ok (ps, rest) →
        lib.treeFromParts left right ps = some tree → Alike (k tree rest) (k' tree rest) := by
  unfold readParents
  rw [withCapacity_granted hnative, withCapacity_granted hwasm, pure_bind, mapErr_bind, mapErr_bind,
    bind_assoc, bind_assoc, alike_bind_iff (((calm_optionalNode lib).many n).alike_mapErr f g s)]
  simp only [CrashReader.mapErr_eq_ok]
  refine ⟨fun h ps rest tree hps htree => ?_, fun h ps rest hps => ?_⟩
  · have halike := h ps rest hps
    rw [htree] at halike
    exact halike
  · cases htree : lib.treeFromParts left right ps with
    | none => exact .error _ _
    | some tree => exact h ps rest tree hps htree

/-- Behind a tree, the two readers go on alike unless the bytes declare more parents than a tree is
deep. Then the native reader refuses, and the other one has to. -/
theorem alike_tree_iff (hnative : RoomForDepth native) (hwasm : RoomForDepth wasm) (f : String → ε)
    (g : String → ε') (k : Tree → CrashReader ε β) (k' : Tree → CrashReader ε' β) :
    Alike ((mapErr f (readCommitmentTreeData lib native) >>= k) s)
      ((mapErr g (FroztWasmTree.readCommitmentTreeData lib wasm) >>= k') s) ↔
      ∀ left right n rest, readHeader lib s = .ok ((left, right, n), rest) →
        (noteCommitmentTreeDepth < n → Unfinished lib wasm left right (n % 2 ^ 32) rest
          fun tree behind => Refused (k' tree behind)) ∧
        (n ≤ noteCommitmentTreeDepth → ∀ ps behind tree,
          many (readOptionalNode lib) n rest = .ok (ps, behind) →
            lib.treeFromParts left right ps = some tree → Alike (k tree behind) (k' tree behind)) := by
  rw [readTree_eq, readWasmTree_eq, mapErr_bind, mapErr_bind, bind_assoc, bind_assoc,
    alike_bind_iff ((calm_header lib).alike_mapErr f g s)]
  simp only [CrashReader.mapErr_eq_ok, Prod.forall]
  refine forall₄_congr fun left right n rest => imp_congr_right fun _ => ?_
  by_cases hn : noteCommitmentTreeDepth < n
  · have hstop : (mapErr f (stop (.error "parent_count exceeds tree depth") : CrashReader String Tree)
        >>= k) rest = .error (.error (f "parent_count exceeds tree depth")) := rfl
    rw [if_pos hn, hstop, alike_error_iff, refused_parents_iff]
    exact ⟨fun h => ⟨fun _ => h, fun hle => absurd hn (Nat.not_lt.mpr hle)⟩, fun h => h.1 hn⟩
  · have hle : n ≤ noteCommitmentTreeDepth := Nat.not_lt.mp hn
    have hmod : n % 2 ^ 32 = n := Nat.mod_eq_of_lt (lt_of_le_of_lt hle (by decide))
    rw [if_neg hn, hmod, alike_parents_iff (hnative n hle) (hwasm n hle)]
    exact ⟨fun h => ⟨fun hlt => absurd hlt hn, fun _ => h⟩, fun h => h.2 hle⟩

theorem refused_wasm_tree_iff (g : String → ε) (k : Tree → CrashReader ε β) :
    Refused ((mapErr g (FroztWasmTree.readCommitmentTreeData lib wasm) >>= k) s) ↔
      ∀ left right n rest, readHeader lib s = .ok ((left, right, n), rest) →
        Unfinished lib wasm left right (n % 2 ^ 32) rest fun tree behind => Refused (k tree behind) := by
  rw [readWasmTree_eq, mapErr_bind, bind_assoc, refused_bind_iff ((calm_header lib).mapErr g)]
  simp only [CrashReader.mapErr_eq_ok, Prod.forall, refused_parents_iff]

/-! ## Cursors -/

theorem refused_close_iff (invalid : ε) (tree : Tree) (filled : List Node) (cursor : Option Tree) :
    Refused ((close lib invalid tree filled cursor >>= ended) s) ↔
      lib.fromParts tree filled cursor = none := by
  unfold close
  cases lib.fromParts tree filled cursor with
  | none => exact iff_of_true ⟨invalid, rfl⟩ rfl
  | some w => exact iff_of_false (fun ⟨_, he⟩ => nomatch he) nofun

theorem alike_close (invalid : ε) (invalid' : ε') (tree : Tree) (filled : List Node)
    (cursor : Option Tree) (s : Bytes) : Alike ((close lib invalid tree filled cursor >>= ended) s)
      ((close lib invalid' tree filled cursor >>= ended) s) := by
  unfold close
  cases lib.fromParts tree filled cursor with
  | none => exact .error _ _
  | some w => exact .ok _

/-- No witness with these nodes: the flag is not there, or `from_parts` refuses what comes behind
it, if there is a tree. -/
def NoWitness (lib : TreeLib Node Tree Witness) (grants : Nat → Bool) (tree : Tree)
    (filled : List Node) (s : Bytes) : Prop :=
  ∀ flag rest, readU8 eof s = .ok (flag, rest) →
    if flag = 0 then lib.fromParts tree filled none = none
    else ∀ left right n behind, readHeader lib rest = .ok ((left, right, n), behind) →
      Unfinished lib grants left right (n % 2 ^ 32) behind fun cursor _ =>
        lib.fromParts tree filled (some cursor) = none

theorem refused_cursor_iff (onFlag onCursor : String → ε) (invalid : ε) (tree : Tree)
    (filled : List Node) :
    Refused ((readCursor lib (FroztWasmTree.readCommitmentTreeData lib wasm) onFlag onCursor invalid
      tree filled >>= ended) s) ↔ NoWitness lib wasm tree filled s := by
  unfold readCursor NoWitness
  rw [bind_assoc, refused_bind_iff ((calm_readU8 eof).mapErr onFlag)]
  simp only [CrashReader.mapErr_eq_ok]
  refine forall₃_congr fun flag rest _ => ?_
  by_cases hflag : flag = 0
  · rw [if_pos hflag, if_neg (not_not.mpr hflag)]
    exact refused_close_iff invalid tree filled none
  · rw [if_neg hflag, if_pos hflag, bind_assoc, refused_wasm_tree_iff]
    simp only [refused_close_iff]

/-- The cursor that the bytes declare has no more parents than a tree is deep, or no witness comes
of it. -/
def CursorFits (lib : TreeLib Node Tree Witness) (grants : Nat → Bool) (tree : Tree)
    (filled : List Node) (s : Bytes) : Prop :=
  ∀ flag rest, readU8 eof s = .ok (flag, rest) → flag ≠ 0 → ∀ left right n behind,
    readHeader lib rest = .ok ((left, right, n), behind) → noteCommitmentTreeDepth < n →
      Unfinished lib grants left right (n % 2 ^ 32) behind fun cursor _ =>
        lib.fromParts tree filled (some cursor) = none

theorem alike_cursor_iff (hnative : RoomForDepth native) (hwasm : RoomForDepth wasm)
    (onFlag onCursor : String → ε) (invalid : ε) (onFlag' onCursor' : String → ε') (invalid' : ε')
    (tree : Tree) (filled : List Node) :
    Alike ((readCursor lib (readCommitmentTreeData lib native) onFlag onCursor invalid tree filled >>=
      ended) s) ((readCursor lib (FroztWasmTree.readCommitmentTreeData lib wasm) onFlag' onCursor'
      invalid' tree filled >>= ended) s) ↔ CursorFits lib wasm tree filled s := by
  unfold readCursor CursorFits
  rw [bind_assoc, bind_assoc, alike_bind_iff ((calm_readU8 eof).alike_mapErr onFlag onFlag' s)]
  simp only [CrashReader.mapErr_eq_ok]
  refine forall₃_congr fun flag rest _ => ?_
  by_cases hflag : flag = 0
  · rw [if_neg (not_not.mpr hflag), if_neg (not_not.mpr hflag)]
    exact iff_of_true (alike_close invalid invalid' tree filled none rest) fun h => absurd hflag h
  · rw [if_pos hflag, if_pos hflag, bind_assoc, bind_assoc, alike_tree_iff hnative hwasm]
    simp only [refused_close_iff]
    constructor
    · intro h _ left right n behind hheader hlt
      exact (h left right n behind hheader).1 hlt
    · intro h left right n behind hheader
      exact ⟨fun hlt => h hflag left right n behind hheader hlt, fun _ ps rest' cursor _ _ =>
        alike_close invalid invalid' tree filled (some cursor) rest'⟩

/-- A tree with no more parents than it may have stands at the front of the bytes. -/
def TreeAt (lib : TreeLib Node Tree Witness) (s : Bytes) (tree : Tree) (rest : Bytes) : Prop :=
  ∃ left right n behind ps, readHeader lib s = .ok ((left, right, n), behind) ∧
    n ≤ noteCommitmentTreeDepth ∧ many (readOptionalNode lib) n behind = .ok (ps, rest) ∧
      lib.treeFromParts left right ps = some tree

/-- What stands behind the tree, from the count of the filled nodes on. -/
structure FilledFits (lib : TreeLib Node Tree Witness) (grants : Nat → Bool) (tree : Tree)
    (s : Bytes) : Prop where
  count : ∀ n rest, readCompactSize 64 s = .ok (n, rest) → noteCommitmentTreeDepth < n →
    grants (n % 2 ^ 32) = true ∧ ∀ filled behind,
      many (readNode lib) (n % 2 ^ 32) rest = .ok (filled, behind) → NoWitness lib grants tree filled behind
  cursor : ∀ n rest, readCompactSize 64 s = .ok (n, rest) → n ≤ noteCommitmentTreeDepth →
    ∀ filled behind, many (readNode lib) n rest = .ok (filled, behind) →
      CursorFits lib grants tree filled behind

theorem alike_filled_iff (hnative : RoomForDepth native) (hwasm : RoomForDepth wasm)
    {onCount onNode onFlag onCursor : String → ε} {tooMany invalid : ε}
    {onCount' onNode' onFlag' onCursor' : String → ε'} {invalid' : ε'} (tree : Tree) :
    Alike (((mapErr onCount (readCompactSize 64) >>= fun n =>
        if n > noteCommitmentTreeDepth then stop (.error tooMany)
        else readFilled lib (readCommitmentTreeData lib native) onNode onFlag onCursor invalid native
          tree n) >>= ended) s)
      (((mapErr onCount' (readCompactSize 32) >>= fun n =>
        readFilled lib (FroztWasmTree.readCommitmentTreeData lib wasm) onNode' onFlag' onCursor'
          invalid' wasm tree n) >>= ended) s) ↔ FilledFits lib wasm tree s := by
  have hcount : ∀ n rest, Alike
      (((if n > noteCommitmentTreeDepth then stop (.error tooMany)
        else readFilled lib (readCommitmentTreeData lib native) onNode onFlag onCursor invalid native
          tree n) >>= ended) rest)
      ((readFilled lib (FroztWasmTree.readCommitmentTreeData lib wasm) onNode' onFlag' onCursor'
          invalid' wasm tree (n % 2 ^ 32) >>= ended) rest) ↔
      (noteCommitmentTreeDepth < n → wasm (n % 2 ^ 32) = true ∧ ∀ filled behind,
        many (readNode lib) (n % 2 ^ 32) rest = .ok (filled, behind) →
          NoWitness lib wasm tree filled behind) ∧
      (n ≤ noteCommitmentTreeDepth → ∀ filled behind,
        many (readNode lib) n rest = .ok (filled, behind) → CursorFits lib wasm tree filled behind) := by
    intro n rest
    have hnodes := (calm_node lib).many (n % 2 ^ 32)
    by_cases hn : noteCommitmentTreeDepth < n
    · have hstop : ((stop (.error tooMany) : CrashReader ε Witness) >>= ended) rest =
          .error (.error tooMany) := rfl
      rw [if_pos hn, hstop, alike_error_iff, and_iff_left fun hle => absurd hn (Nat.not_lt.mpr hle),
        imp_iff_right hn]
      unfold readFilled
      rw [bind_assoc, refused_withCapacity_iff, bind_assoc, refused_bind_iff (hnodes.mapErr onNode')]
      simp only [CrashReader.mapErr_eq_ok, refused_cursor_iff]
    · have hle : n ≤ noteCommitmentTreeDepth := Nat.not_lt.mp hn
      have hmod : n % 2 ^ 32 = n := Nat.mod_eq_of_lt (lt_of_le_of_lt hle (by decide))
      rw [hmod] at hnodes ⊢
      rw [if_neg hn, and_iff_right fun hlt => absurd hlt hn, imp_iff_right hle]
      unfold readFilled
      rw [withCapacity_granted (hnative n hle), withCapacity_granted (hwasm n hle), pure_bind,
        pure_bind, bind_assoc, bind_assoc, alike_bind_iff (hnodes.alike_mapErr onNode onNode' rest)]
      simp only [CrashReader.mapErr_eq_ok, alike_cursor_iff hnative hwasm]
  rw [readCompactSize_wasm, mapErr_bind, bind_assoc, bind_assoc, bind_assoc,
    alike_bind_iff ((calm_compactSize 64).alike_mapErr onCount onCount' s)]
  simp only [CrashReader.mapErr_eq_ok, mapErr_pure, pure_bind, hcount]
  exact ⟨fun h => ⟨fun n rest hn => (h n rest hn).1, fun n rest hn => (h n rest hn).2⟩,
    fun h n rest hn => ⟨h.count n rest hn, h.cursor n rest hn⟩⟩

end

/-! ## Round trips, and the two libraries -/

/-- Both libraries read back what was written. A witness that is read back has the same future. -/
structure RoundTrips (lib : TreeLib Node Tree Witness) (native wasm : Nat → Bool) : Prop where
  tree : ∀ t, valueOf (readCommitmentTreeData lib native) (writeCommitmentTreeData lib t) = .ok t ∧
    valueOf (FroztWasmTree.readCommitmentTreeData lib wasm) (writeCommitmentTreeData lib t) = .ok t
  witness : ∀ w, lib.Appended w → ∃ w',
    valueOf (readWitness lib native) (serializeWitness lib w) = .ok w' ∧
    valueOf (FroztWasmTree.readWitness lib wasm) (serializeWitness lib w) = .ok w' ∧
    lib.SameParts w w' ∧ SameFuture lib w w'

/-- Both libraries read the bytes alike, as a tree and as a witness. -/
structure ReadersAgree (lib : TreeLib Node Tree Witness) (native wasm : Nat → Bool)
    (data : Bytes) : Prop where
  tree : Alike (valueOf (readCommitmentTreeData lib native) data)
    (valueOf (FroztWasmTree.readCommitmentTreeData lib wasm) data)
  witness : Alike (valueOf (readWitness lib native) data)
    (valueOf (FroztWasmTree.readWitness lib wasm) data)

/-- Each count that the bytes declare is at most the depth of a tree, or there is memory for its
low 32 bits and nothing comes of so many entries. -/
structure CountsFit (lib : TreeLib Node Tree Witness) (grants : Nat → Bool) (data : Bytes) : Prop where
  tree : ∀ left right n rest, readHeader lib data = .ok ((left, right, n), rest) →
    noteCommitmentTreeDepth < n → Unfinished lib grants left right (n % 2 ^ 32) rest fun _ _ => False
  filled : ∀ tree rest, TreeAt lib data tree rest → FilledFits lib grants tree rest

theorem roundTrips (doc : lib.Documented) (hnative : RoomForDepth native)
    (hwasm : RoomForDepth wasm) : RoundTrips lib native wasm where
  tree t := ⟨(reads_tree doc hnative t).valueOf, (reads_wasm_tree doc hwasm t).valueOf⟩
  witness w hw := by
    obtain ⟨w', hw', hsame⟩ := doc.fromParts w
    exact ⟨w', (reads_witness doc hnative hw hw').valueOf, (reads_wasm_witness doc hwasm hw hw').valueOf,
      hsame, sameFuture_of_sameParts doc hsame⟩

theorem alike_trees_iff (lib : TreeLib Node Tree Witness) (hnative : RoomForDepth native)
    (hwasm : RoomForDepth wasm) (data : Bytes) :
    Alike (valueOf (readCommitmentTreeData lib native) data)
      (valueOf (FroztWasmTree.readCommitmentTreeData lib wasm) data) ↔
    ∀ left right n rest, readHeader lib data = .ok ((left, right, n), rest) →
      noteCommitmentTreeDepth < n →
        Unfinished lib wasm left right (n % 2 ^ 32) rest fun _ _ => False := by
  have hended : ∀ (tree : Tree) (rest : Bytes),
      Refused ((ended tree : CrashReader String Tree) rest) ↔ False :=
    fun tree rest => iff_of_false (fun ⟨_, he⟩ => nomatch he) id
  have htree : Alike ((mapErr id (readCommitmentTreeData lib native) >>= ended) data)
      ((mapErr id (FroztWasmTree.readCommitmentTreeData lib wasm) >>= ended) data) ↔ _ :=
    alike_tree_iff hnative hwasm id id ended ended
  rw [mapErr_id, mapErr_id] at htree
  rw [alike_valueOf_iff, htree]
  simp only [hended]
  exact ⟨fun h left right n rest hheader => (h left right n rest hheader).1,
    fun h left right n rest hheader => ⟨h left right n rest hheader, fun _ _ _ _ _ _ => .ok _⟩⟩

/-- Bytes that were written are read back by both libraries, and all other bytes are read alike
exactly if their counts fit. -/
theorem roundTrips_and_readersAgree_iff (doc : lib.Documented) (hnative : RoomForDepth native)
    (hwasm : RoomForDepth wasm) : RoundTrips lib native wasm ∧
      ∀ data, ReadersAgree lib native wasm data ↔ CountsFit lib wasm data := by
  refine ⟨roundTrips doc hnative hwasm, fun data => ?_⟩
  have htrees := alike_trees_iff lib hnative hwasm data
  have hwitness : Alike (valueOf (readWitness lib native) data)
      (valueOf (FroztWasmTree.readWitness lib wasm) data) ↔
      ∀ left right n rest, readHeader lib data = .ok ((left, right, n), rest) →
        (noteCommitmentTreeDepth < n → Unfinished lib wasm left right (n % 2 ^ 32) rest
          fun tree behind => Refused (((mapErr (fun e => s!"deserialize filled count: {e}") (readCompactSize 32) >>=
            readFilled lib (FroztWasmTree.readCommitmentTreeData lib wasm)
              (fun e => s!"deserialize filled node: {e}") (fun e => s!"deserialize cursor flag: {e}")
              (fun e => s!"deserialize cursor: {e}") "invalid witness parts" wasm tree) >>= ended) behind)) ∧
        (n ≤ noteCommitmentTreeDepth → ∀ ps behind tree,
          many (readOptionalNode lib) n rest = .ok (ps, behind) →
            lib.treeFromParts left right ps = some tree → FilledFits lib wasm tree behind) := by
    rw [alike_valueOf_iff, readWitness_eq, readWasmWitness_eq, bind_assoc (mapErr sapling _),
      bind_assoc (mapErr _ (FroztWasmTree.readCommitmentTreeData lib wasm)), alike_tree_iff hnative hwasm]
    simp only [alike_filled_iff hnative hwasm]
  constructor
  · rintro ⟨htree, hw⟩
    refine ⟨htrees.mp htree, ?_⟩
    rintro tree rest ⟨left, right, n, behind, ps, hheader, hn, hps, hparts⟩
    exact (hwitness.mp hw left right n behind hheader).2 hn ps rest tree hps hparts
  · rintro ⟨htree, hfilled⟩
    refine ⟨htrees.mpr htree, hwitness.mpr fun left right n rest hheader => ⟨fun hlt => ?_, ?_⟩⟩
    · have hnone := htree left right n rest hheader hlt
      exact ⟨hnone.granted, fun ps behind tree hps hparts => (hnone.parents ps behind tree hps hparts).elim⟩
    · intro hn ps behind tree hps hparts
      exact hfilled tree behind ⟨left, right, n, rest, ps, hheader, hn, hps, hparts⟩

theorem roomForDepth_memory : RoomForDepth Reference.memory := by
  intro n hn
  unfold noteCommitmentTreeDepth at hn
  exact decide_eq_true (by omega)

theorem roundTrips_reference : RoundTrips Reference.treeLib Reference.memory Reference.memory ∧
    ∀ data, ReadersAgree Reference.treeLib Reference.memory Reference.memory data ↔
      CountsFit Reference.treeLib Reference.memory data :=
  roundTrips_and_readersAgree_iff Reference.treeLib_documented roomForDepth_memory roomForDepth_memory

/-- With a count of `2 ^ 32` parents only the WASM library reads the empty tree, and with one of
`2 ^ 31` it crashes. -/
theorem readers_disagree :
    ¬ ReadersAgree Reference.treeLib Reference.memory Reference.memory
      [0, 0, 255, 0, 0, 0, 0, 1, 0, 0, 0] ∧
    ¬ ReadersAgree Reference.treeLib Reference.memory Reference.memory [0, 0, 254, 0, 0, 0, 128] := by
  refine ⟨fun h => ?_, fun h => ?_⟩
  · have hnative : valueOf (readCommitmentTreeData Reference.treeLib Reference.memory)
        [0, 0, 255, 0, 0, 0, 0, 1, 0, 0, 0] = .error (.error "parent_count exceeds tree depth") := rfl
    have hwasm : valueOf (FroztWasmTree.readCommitmentTreeData Reference.treeLib Reference.memory)
        [0, 0, 255, 0, 0, 0, 0, 1, 0, 0, 0] = .ok .empty := rfl
    have htree := h.tree
    rw [hnative, hwasm] at htree
    nomatch htree
  · have hnative : valueOf (readCommitmentTreeData Reference.treeLib Reference.memory)
        [0, 0, 254, 0, 0, 0, 128] = .error (.error "parent_count exceeds tree depth") := rfl
    have hwasm : valueOf (FroztWasmTree.readCommitmentTreeData Reference.treeLib Reference.memory)
        [0, 0, 254, 0, 0, 0, 128] = .error (.crash .overflow) := rfl
    have htree := h.tree
    rw [hnative, hwasm] at htree
    nomatch htree

end FroztTree
