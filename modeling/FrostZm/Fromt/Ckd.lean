import FrostZm.Fromt.Signers

/-!
# Child key derivation

Each signer publishes its weighted share times a scalar of the path; the hash of the sum of
them is the tweak that everyone adds to its share.
-/

set_option linter.unusedSectionVars false

variable {F G P Rng : Type} [Field F] [DecidableEq F] [Ord F] [Std.TransOrd F] [Std.LawfulEqOrd F]
  [AddCommGroup G] [Module F G] [AddCommGroup P]

open Ceremony

namespace Fromt

variable (lib : FromtLib F G P Rng)

structure CkdState (F : Type) where
  keyShareData : Bytes
  account : UInt32
  index : UInt32
  lambdaX : F

def derivePathPoint (account index : UInt32) : F :=
  lib.fromBytesModOrder
    (lib.keccak256 (ascii "fromt/ckd" ++ u32ToLeBytes account ++ u32ToLeBytes index))

def ckdPart1 (keyShareData : Bytes) (account index : UInt32) (signerIds : List UInt16) :
    Result (CkdState F × Bytes) := do
  let bundle ← KeyShareBundle.deserialize lib keyShareData
  let lambdaX ← weightedShare .ckdError bundle.keyPackage signerIds
  let hPath := derivePathPoint lib account index
  let outBytes := lib.serializeScalar (lambdaX * hPath)
  return ({ keyShareData, account, index, lambdaX }, outBytes)

/-- The turn of the loop that adds a package to the sum. -/
def addScalar (sum : F) (package : UInt16 × Bytes) : Result F := do
  failIf (package.2.length ≠ 32) .serializationError
  let scalar ← okOr .serializationError (lib.deserializeScalar package.2)
  return sum + scalar

/-- The tweak for the sum of all packages. -/
def ckdTweak (account index : UInt32) (sum : F) : F :=
  lib.fromBytesModOrder
    (lib.keccak256 (lib.serializeScalar sum ++ u32ToLeBytes account ++ u32ToLeBytes index))

def ckdPart2 (state : CkdState F) (r1Packages : List (UInt16 × Bytes)) : Result Bytes := do
  let bundle ← KeyShareBundle.deserialize lib state.keyShareData
  let hPath := derivePathPoint lib state.account state.index
  let sum ← r1Packages.foldlM (addScalar lib) (state.lambdaX * hPath)
  let childShare := bundle.keyPackage.signingShare + ckdTweak lib state.account state.index sum
  return lib.serializeScalar childShare

/-! ## The sum of the packages -/

variable {lib} {account index : UInt32}

theorem addScalar_ok (doc : lib.Documented) (sum x : F) (s : UInt16) :
    addScalar lib sum (s, lib.serializeScalar x) = .ok (sum + x) := by
  unfold addScalar
  refine bind_eq_ok.mpr ⟨(), failIf_eq_ok.mpr (not_not.mpr (doc.length_scalar x)), ?_⟩
  exact bind_eq_ok.mpr ⟨x, okOr_eq_ok.mpr (doc.scalar_roundtrip x), rfl⟩

theorem foldlM_addScalar (doc : lib.Documented) (f : UInt16 → F) (order : List UInt16) (sum : F) :
    (order.map fun s => (s, lib.serializeScalar (f s))).foldlM (addScalar lib) sum =
      .ok (sum + (order.map f).sum) := by
  induction order generalizing sum with
  | nil => simp [pure, Except.pure]
  | cons s order ih =>
    rw [List.map_cons, List.foldlM_cons, addScalar_ok doc]
    simp only [bind, Except.bind]
    rw [ih, List.map_cons, List.sum_cons, add_assoc]

theorem ckdPart1_ok {data : Bytes} {signers : List UInt16} {bundle : KeyShareBundle F G} {w : F}
    (hbundle : KeyShareBundle.deserialize lib data = .ok bundle)
    (hw : weightedShare .ckdError bundle.keyPackage signers = .ok w) :
    ckdPart1 lib data account index signers =
      .ok (⟨data, account, index, w⟩,
        lib.serializeScalar (w * derivePathPoint lib account index)) :=
  bind_eq_ok.mpr ⟨_, hbundle, bind_eq_ok.mpr ⟨_, hw, rfl⟩⟩

theorem of_ckdPart1 {data package : Bytes} {signers : List UInt16} {state : CkdState F}
    (h : ckdPart1 lib data account index signers = .ok (state, package)) :
    ∃ bundle w, KeyShareBundle.deserialize lib data = .ok bundle ∧
      weightedShare .ckdError bundle.keyPackage signers = .ok w ∧
      package = lib.serializeScalar (w * derivePathPoint lib account index) := by
  unfold ckdPart1 at h
  obtain ⟨bundle, hbundle, h⟩ := bind_eq_ok.mp h
  obtain ⟨w, hw, h⟩ := bind_eq_ok.mp h
  obtain ⟨-, rfl⟩ := Prod.mk.inj (Except.ok.inj h)
  exact ⟨bundle, w, hbundle, hw, rfl⟩

end Fromt
