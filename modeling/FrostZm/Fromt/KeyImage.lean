import FrostZm.Fromt.Signers
import FrostZm.Session.Relay
import FrostZm.Session.Setup

/-!
# Distributed key images

Each signer multiplies the hashed output keys by its weighted share; the sum of all partial
points, and of the key offset times the hashed key, is the key image.
-/

set_option linter.unusedSectionVars false

variable {F G P Rng : Type} [Field F] [DecidableEq F] [Ord F] [Std.TransOrd F] [Std.LawfulEqOrd F]
  [AddCommGroup G] [Module F G] [AddCommGroup P]

open FrostChannel

namespace Fromt

variable (lib : FromtLib F G P Rng)

structure KeyImageOutput where
  outputKey : Bytes
  keyOffset : Bytes

structure KeyImageState where
  outputs : List KeyImageOutput
  myPartials : List Bytes

/-- The output of 64 bytes at `pos`. -/
def outputAt (data : Bytes) (pos : Nat) : KeyImageOutput :=
  { outputKey := slice data pos 32, keyOffset := slice data (pos + 32) 32 }

def decodeOutputs (data : Bytes) : Result (List KeyImageOutput) := do
  failIf (data.length < 4) .serializationError
  let count := (u32FromLeBytes (slice data 0 4)).toNat
  failIf (data.length < 4 + count * 64) .serializationError
  return (List.range count).map fun i => outputAt data (4 + i * 64)

def encodeOutputs (outputs : List KeyImageOutput) : Bytes :=
  u32ToLeBytes (.ofNat outputs.length) ++ outputs.flatMap fun out => out.outputKey ++ out.keyOffset

/-- A weighted share's partial key image of one output, compressed. -/
def partialOf (lambdaX : F) (out : KeyImageOutput) : Bytes :=
  lib.compress (lib.scalarMul lambdaX (lib.biasedHash out.outputKey))

def keyImagePart1 (keyShareData outputsData : Bytes) (signerIds : List UInt16) :
    Result (KeyImageState × Bytes) := do
  let bundle ← KeyShareBundle.deserialize lib keyShareData
  let lambdaX ← weightedShare .unknownError bundle.keyPackage signerIds
  let outputs ← decodeOutputs outputsData
  failIf (outputs.isEmpty) .serializationError
  let myPartials := outputs.map (partialOf lib lambdaX)
  return ({ outputs, myPartials }, myPartials.flatten)

def decompressPoint (b : Bytes) : Result P := okOr .serializationError (lib.decompress b)

/-- One package added to the sums, point by point. -/
def addPackage (n : Nat) (sums : List P) (package : UInt16 × Bytes) : Result (List P) := do
  failIf (package.2.length ≠ n * 32) .serializationError
  let points ← (List.range n).mapM fun i => decompressPoint lib (slice package.2 (i * 32) 32)
  return List.zipWith (· + ·) sums points

/-- The key image of an output from the sum of the partial points. -/
def finishImage (out : KeyImageOutput) (sum : P) : Result Bytes := do
  let koScalar ← okOr .serializationError (lib.deserializeScalar out.keyOffset)
  return lib.compress (sum + lib.scalarMul koScalar (lib.biasedHash out.outputKey))

def keyImagePart2 (state : KeyImageState) (r1Packages : List (UInt16 × Bytes)) : Result Bytes := do
  let sums ← state.myPartials.mapM (decompressPoint lib)
  let sums ← r1Packages.foldlM (addPackage lib state.outputs.length) sums
  let images ← (state.outputs.zip sums).mapM fun e => finishImage lib e.1 e.2
  return images.flatten

/-- `num_signers - 1` on a `usize`, as a release build computes it. -/
def otherSigners : Nat → Nat
  | 0 => 2 ^ 64 - 1
  | n + 1 => n

def keyImageSessionRun (keyShareData outputsData : Bytes) (signerIds : List UInt16) :
    Ceremony Bytes := do
  let (state, partials) ← keyImagePart1 lib keyShareData outputsData signerIds
  broadcast partials
  let r1Packages ← recvEach (otherSigners signerIds.length) [] fun packages m => .ok (packages ++ [m])
  keyImagePart2 lib state r1Packages

/-- The own identifier of a new session, and what it runs. -/
def keyImageSessionFromSetup (setup : KeyImageSetup) (myPartyName keyShare : Bytes) :
    Result (UInt16 × Ceremony Bytes) := do
  let myId ← okOr .invalidIdentifier (setup.base.frostIdByName myPartyName)
  return (myId, keyImageSessionRun lib keyShare setup.outputsData setup.base.ids)

/-! ## Packages -/

variable {lib}

theorem slice_append {pre b suf : Bytes} {pos len : Nat} (hpos : pre.length = pos)
    (hlen : b.length = len) : slice (pre ++ b ++ suf) pos len = b := by
  subst hpos hlen
  rw [slice, List.append_assoc, List.drop_left, List.take_left]

theorem slice_flatten {l : List Bytes} {len i : Nat} (hl : ∀ b ∈ l, b.length = len)
    (hi : i < l.length) : slice l.flatten (i * len) len = l[i] := by
  have hsplit : l.flatten = (l.take i).flatten ++ l[i] ++ (l.drop (i + 1)).flatten := by
    conv_lhs => rw [← List.take_append_drop i l, List.drop_eq_getElem_cons hi]
    rw [List.flatten_append, List.flatten_cons, List.append_assoc]
  have hpos : (l.take i).flatten.length = i * len := by
    rw [List.length_flatten, List.map_congr_left fun b hb => hl b (List.mem_of_mem_take hb),
      List.map_const', List.sum_replicate, List.length_take, Nat.min_eq_left (Nat.le_of_lt hi),
      smul_eq_mul]
  rw [hsplit]
  exact slice_append hpos (hl _ (List.getElem_mem hi))

theorem outputAt_encode {outputs : List KeyImageOutput} (hkeys : ∀ o ∈ outputs,
    o.outputKey.length = 32 ∧ o.keyOffset.length = 32) {i : Nat} (hi : i < outputs.length) :
    outputAt (encodeOutputs outputs) (4 + i * 64) = outputs[i] := by
  let chunks := outputs.map fun out => out.outputKey ++ out.keyOffset
  have hchunks : ∀ b ∈ chunks, b.length = 64 := by
    intro b hb
    obtain ⟨o, ho, rfl⟩ := List.mem_map.mp hb
    rw [List.length_append, (hkeys o ho).1, (hkeys o ho).2]
  have hmem := hkeys _ (List.getElem_mem hi)
  have hchunk : slice (encodeOutputs outputs) (4 + i * 64) 64 =
      outputs[i].outputKey ++ outputs[i].keyOffset := by
    have hdrop : (encodeOutputs outputs).drop 4 = chunks.flatten := by
      rw [encodeOutputs, List.drop_left' (length_u32ToLeBytes _), List.flatMap_def]
    rw [slice, ← List.drop_drop, hdrop]
    have hi' : i < chunks.length := by simpa [chunks] using hi
    rw [← slice, slice_flatten hchunks hi', List.getElem_map]
  have hkey : slice (encodeOutputs outputs) (4 + i * 64) 32 = outputs[i].outputKey := by
    have h := congrArg (List.take 32) hchunk
    rwa [slice, List.take_take, List.take_left' hmem.1] at h
  have hoff : slice (encodeOutputs outputs) (4 + i * 64 + 32) 32 = outputs[i].keyOffset := by
    have h := congrArg (List.drop 32) hchunk
    rwa [slice, List.drop_take, List.drop_drop, List.drop_left' hmem.1] at h
  rw [outputAt, hkey, hoff]

theorem decodeOutputs_encode {outputs : List KeyImageOutput} (hkeys : ∀ o ∈ outputs,
    o.outputKey.length = 32 ∧ o.keyOffset.length = 32) (hcount : outputs.length < 2 ^ 32) :
    decodeOutputs (encodeOutputs outputs) = .ok outputs := by
  have hlen : (encodeOutputs outputs).length = 4 + outputs.length * 64 := by
    rw [encodeOutputs, List.length_append, length_u32ToLeBytes, List.length_flatMap]
    have h64 : ∀ o ∈ outputs, (o.outputKey ++ o.keyOffset).length = 64 := by
      intro o ho
      rw [List.length_append, (hkeys o ho).1, (hkeys o ho).2]
    rw [List.map_congr_left h64, List.map_const', List.sum_replicate, smul_eq_mul]
  have hread : (u32FromLeBytes (slice (encodeOutputs outputs) 0 4)).toNat = outputs.length := by
    rw [slice, encodeOutputs, List.drop_zero, List.take_left' (length_u32ToLeBytes _),
      u32FromLeBytes_toLeBytes, UInt32.toNat_ofNat']
    exact Nat.mod_eq_of_lt hcount
  unfold decodeOutputs
  simp only [failIf, hread, hlen]
  rw [if_neg (by omega), if_neg (by omega)]
  refine congrArg Except.ok (List.ext_getElem (by simp) fun i h₁ h₂ => ?_)
  rw [List.getElem_map, List.getElem_range]
  exact outputAt_encode hkeys h₂

/-! ## What the signers sum up -/

variable (lib) in
/-- The points of a weighted share, one for each output. -/
def pointsOf (outputs : List KeyImageOutput) (w : F) : List P :=
  outputs.map fun out => lib.scalarMul w (lib.biasedHash out.outputKey)

variable (lib) in
/-- The package of a weighted share. -/
def packageOf (outputs : List KeyImageOutput) (w : F) : Bytes :=
  (outputs.map (partialOf lib w)).flatten

variable {outputs : List KeyImageOutput}

theorem mapM_decompress (doc : lib.Documented) (w : F) :
    (outputs.map (partialOf lib w)).mapM (decompressPoint lib) = .ok (pointsOf lib outputs w) := by
  rw [List.mapM_map]
  refine mapM_ok fun out _ => ?_
  rw [Function.comp_apply, decompressPoint, partialOf, doc.decompress_compress, okOr_some]

theorem zipWith_pointsOf (doc : lib.Documented) (v w : F) :
    List.zipWith (· + ·) (pointsOf lib outputs v) (pointsOf lib outputs w) =
      pointsOf lib outputs (v + w) := by
  rw [pointsOf, pointsOf, List.zipWith_map, List.zipWith_self, pointsOf]
  exact List.map_congr_left fun out _ => (doc.scalarMul_add v w out.outputKey).symm

theorem addPackage_packageOf (doc : lib.Documented) (v w : F) (s : UInt16) :
    addPackage lib outputs.length (pointsOf lib outputs v) (s, packageOf lib outputs w) =
      .ok (pointsOf lib outputs (v + w)) := by
  have hpart : ∀ b ∈ outputs.map (partialOf lib w), b.length = 32 := by
    intro b hb
    obtain ⟨out, -, rfl⟩ := List.mem_map.mp hb
    exact doc.length_compress _
  have hlen : (packageOf lib outputs w).length = outputs.length * 32 := by
    rw [packageOf, List.length_flatten, List.map_congr_left hpart, List.map_const',
      List.sum_replicate, List.length_map, smul_eq_mul]
  have hpoints : (List.range outputs.length).mapM
      (fun i => decompressPoint lib (slice (packageOf lib outputs w) (i * 32) 32)) =
        .ok (pointsOf lib outputs w) := by
    rw [← mapM_decompress doc w]
    have hrange : outputs.map (partialOf lib w) = (List.range outputs.length).map
        fun i => slice (packageOf lib outputs w) (i * 32) 32 := by
      refine List.ext_getElem (by simp) fun i h₁ h₂ => ?_
      simp only [List.getElem_map (fun i => slice (packageOf lib outputs w) (i * 32) 32),
        List.getElem_range]
      exact (slice_flatten hpart h₁).symm
    rw [hrange, List.mapM_map]
    rfl
  refine bind_eq_ok.mpr ⟨(), failIf_eq_ok.mpr (not_not.mpr hlen), ?_⟩
  exact bind_eq_ok.mpr ⟨_, hpoints, congrArg Except.ok (zipWith_pointsOf doc v w)⟩

theorem foldlM_addPackage (doc : lib.Documented) (weight : UInt16 → F) (order : List UInt16)
    (v : F) :
    (order.map fun s => (s, packageOf lib outputs (weight s))).foldlM
        (addPackage lib outputs.length) (pointsOf lib outputs v) =
      .ok (pointsOf lib outputs (v + (order.map weight).sum)) := by
  induction order generalizing v with
  | nil => simp [pure, Except.pure]
  | cons s order ih =>
    rw [List.map_cons, List.foldlM_cons, addPackage_packageOf doc]
    simp only [bind, Except.bind]
    rw [ih, List.map_cons, List.sum_cons, add_assoc]

theorem keyImagePart1_ok {keyShareData outputsData : Bytes} {signerIds : List UInt16}
    {bundle : KeyShareBundle F G} {w : F}
    (hbundle : KeyShareBundle.deserialize lib keyShareData = .ok bundle)
    (hw : weightedShare .unknownError bundle.keyPackage signerIds = .ok w)
    (houtputs : decodeOutputs outputsData = .ok outputs) (hne : outputs ≠ []) :
    keyImagePart1 lib keyShareData outputsData signerIds =
      .ok ({ outputs, myPartials := outputs.map (partialOf lib w) }, packageOf lib outputs w) := by
  refine bind_eq_ok.mpr ⟨_, hbundle, bind_eq_ok.mpr ⟨_, hw, bind_eq_ok.mpr ⟨_, houtputs, ?_⟩⟩⟩
  refine bind_eq_ok.mpr ⟨(), failIf_eq_ok.mpr ?_, rfl⟩
  rwa [List.isEmpty_iff]

/-- The key images of the outputs under a secret. -/
def keyImages (lib : FromtLib F G P Rng) (outputs : List (Bytes × F)) (x : F) : Bytes :=
  (outputs.map fun o => lib.compress (lib.scalarMul (o.2 + x) (lib.biasedHash o.1))).flatten

variable (lib) in
/-- An output key with its offset as a scalar, as the outputs are encoded. -/
def toOutput (o : Bytes × F) : KeyImageOutput :=
  { outputKey := o.1, keyOffset := lib.serializeScalar o.2 }

theorem keyImagePart2_ok (doc : lib.Documented) (outs : List (Bytes × F)) (v : F)
    (weight : UInt16 → F) (order : List UInt16) :
    let outputs := outs.map (toOutput lib)
    keyImagePart2 lib { outputs, myPartials := outputs.map (partialOf lib v) }
        (order.map fun s => (s, packageOf lib outputs (weight s))) =
      .ok (keyImages lib outs (v + (order.map weight).sum)) := by
  intro outputs
  have himages : (outputs.zip (pointsOf lib outputs (v + (order.map weight).sum))).mapM
      (fun e => finishImage lib e.1 e.2) = .ok (outs.map fun o =>
        lib.compress (lib.scalarMul (o.2 + (v + (order.map weight).sum)) (lib.biasedHash o.1))) := by
    rw [pointsOf, List.map_map, List.zip_map', List.mapM_map]
    refine mapM_ok fun o _ => ?_
    refine bind_eq_ok.mpr ⟨o.2, okOr_eq_ok.mpr (doc.scalar_roundtrip o.2), ?_⟩
    refine congrArg (fun point => Except.ok (lib.compress point)) ?_
    exact (add_comm _ _).trans (doc.scalarMul_add _ _ _).symm
  refine bind_eq_ok.mpr ⟨_, mapM_decompress doc v, ?_⟩
  refine bind_eq_ok.mpr ⟨_, foldlM_addPackage doc weight order v, ?_⟩
  exact bind_eq_ok.mpr ⟨_, himages, rfl⟩

theorem eval_keyImageSessionRun {keyShareData outputsData : Bytes} {signerIds : List UInt16}
    {state : KeyImageState} {partials out : Bytes} {packages : List (UInt16 × Bytes)}
    (hpart1 : keyImagePart1 lib keyShareData outputsData signerIds = .ok (state, partials))
    (hlen : packages.length = otherSigners signerIds.length)
    (hpart2 : keyImagePart2 lib state packages = .ok out) :
    (keyImageSessionRun lib keyShareData outputsData signerIds).eval (packages.map frame) =
      some (.ok out, []) := by
  unfold keyImageSessionRun
  have hcollect : packages.foldlM (fun (ps : List (UInt16 × Bytes)) m => Except.ok (ps ++ [m])) [] =
      (.ok packages : Result _) := by
    have happ : ∀ (l : List (UInt16 × Bytes)) acc, l.foldlM
        (fun (ps : List (UInt16 × Bytes)) m => Except.ok (ps ++ [m])) acc =
          (.ok (acc ++ l) : Result _) := by
      intro l
      induction l with
      | nil => intro acc; simp [pure, Except.pure]
      | cons m l ih =>
        intro acc
        rw [List.foldlM_cons]
        simp only [bind, Except.bind]
        rw [ih, List.append_assoc]
        rfl
    simpa using happ packages []
  simp only [hpart1, Proc.liftM_eq, Proc.lift_ok, Proc.ret_bind]
  rw [broadcast, Proc.output, Proc.emit_bind, Proc.ret_bind, Proc.eval_emit]
  refine Proc.eval_bind_ok.mpr ⟨packages, [], ?_, ?_⟩
  · refine Proc.eval_collect_ok_iff.mpr ⟨_, (List.append_nil _).symm, ?_, ?_⟩
    · rw [List.length_map, hlen]
    · exact (foldlM_frames _ _ _).trans hcollect
  · rw [hpart2, Proc.lift_ok, Proc.eval_ret]

end Fromt
