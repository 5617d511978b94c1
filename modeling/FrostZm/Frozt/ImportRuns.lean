import FrostZm.Ceremony.Contributions
import FrostZm.Frozt.Metadata

/-!
# Whose key is imported

The seed holder of a Zcash key import announces the key of its seed and does not compare it with
the one that it has got.
-/

open Ceremony

set_option linter.unusedSectionVars false

variable {F G Rng : Type} [Field F] [DecidableEq F] [Ord F] [Std.TransOrd F] [Std.LawfulEqOrd F]
  [AddCommGroup G] [Module F G]

namespace Frozt

variable (lib : FroztLib F G Rng)

/-- The spending key of an account of a seed, as a scalar. -/
def importedSecret (seed : Bytes) (accountIndex : UInt32) : Result F := do
  let sk ← deriveSpendingKey lib seed accountIndex
  okOr .serializationError (lib.deserializeScalar sk)

/-- The keys in a stored bundle. -/
def storedKeys (out : Bytes) : Option (KeyPackage F G × PublicKeyPackage F G) :=
  (KeyShareBundle.deserialize lib out).toOption.map fun bundle =>
    (bundle.keyPackage, bundle.pubKeyPackage)

variable {lib} {n minSigners p seedHolder : UInt16} {seed : UInt16 → Bytes}
  {accountIndex : UInt16 → UInt32} {birthday : UInt16 → UInt64} {rng : UInt16 → Rng}

theorem importTerm_true (n : UInt16) (seed : Bytes) (accountIndex : UInt32) :
    importTerm lib true n seed accountIndex =
      (importedSecret lib seed accountIndex).map fun s => deriveConstantTerm s n := by
  unfold importTerm importedSecret
  rw [if_pos rfl]
  cases deriveSpendingKey lib seed accountIndex with
  | error e => rfl
  | ok sk =>
    cases hs : lib.deserializeScalar sk with
    | none => simp [hs, okOr, bind, Except.bind, Except.map]
    | some s => simp [hs, okOr, bind, Except.bind, Except.map, pure, Except.pure]

theorem deserialize_packBundle (doc : lib.Documented) {keyPackage : KeyPackage F G}
    {pubKeyPackage : PublicKeyPackage F G} {metadataBlob out : Bytes}
    (h : packBundle lib keyPackage pubKeyPackage metadataBlob = .ok out) :
    ∃ saplingExtras birthday, metadataParse metadataBlob = .ok (saplingExtras, birthday) ∧
      KeyShareBundle.deserialize lib out =
        .ok { keyPackage, pubKeyPackage, saplingExtras, birthday } := by
  obtain ⟨⟨extras, birthday⟩, hparse, h⟩ := bind_eq_ok.mp h
  refine ⟨extras, birthday, hparse, KeyShareBundle.deserialize_serialize doc ?_ h⟩
  unfold metadataParse at hparse
  split at hparse
  · nomatch hparse
  split at hparse
  · nomatch hparse
  · obtain ⟨rfl, -⟩ := Prod.mk.inj (Except.ok.inj hparse)
    exact lt_of_le_of_lt (List.length_take_le _ _) (by norm_num)

theorem stores_importMetadata (doc : lib.Documented) (n : UInt16) (isSeedHolder : Bool) (seed : Bytes)
    (accountIndex : UInt32) (birthday : UInt64) :
    Stores (storedKeys lib) fun (_ : BTreeMap (Identifier F) (Round1Package F G)) keys =>
      importMetadata lib n isSeedHolder seed accountIndex birthday keys.1 keys.2 := by
  intro r1Map keys log out rest h
  obtain ⟨blob, log₁, -, h⟩ := Proc.eval_bind_ok.mp h
  obtain ⟨⟨⟩, log₂, -, h⟩ := Proc.eval_bind_ok.mp h
  rw [Proc.liftM_eq, Proc.eval_lift, Option.some.injEq, Prod.mk.injEq] at h
  obtain ⟨extras, birthday, -, hread⟩ := deserialize_packBundle doc h.1
  rw [storedKeys, hread]
  rfl

theorem froztKeyImportRun_opens (doc : lib.Documented) (n minSigners p seedHolder : UInt16)
    (seed : Bytes) (accountIndex : UInt32) (birthday : UInt64) (rng : Rng) :
    Opens lib.toFrostCore lib.deserializeRound1 id n minSigners p
      (fun o => importTerm lib (decide (p = seedHolder)) n seed accountIndex =
        .ok (o.secret1.coefficients.headD 0))
      (fun _ keys => importMetadata lib n (decide (p = seedHolder)) seed accountIndex birthday keys.1
        keys.2)
      (froztKeyImportRun lib p n minSigners seedHolder seed accountIndex birthday rng) := by
  rw [froztKeyImportRun_eq]
  refine .lift fun term hterm => ?_
  refine (keyImportRun_opens doc.toCore n minSigners p term rng _).mono fun o ho => ?_
  rw [ho]
  exact hterm

/-- The constant term with which a party begins its session, if it gets that far. -/
def termOf (lib : FroztLib F G Rng) (seedHolder n : UInt16) (seed : UInt16 → Bytes)
    (accountIndex : UInt16 → UInt32) (q : UInt16) : F :=
  (importTerm lib (decide (q = seedHolder)) n (seed q) (accountIndex q)).toOption.getD 0

theorem importSound_iff (doc : lib.Documented) {w : Setting} (hids : w.ids = (upTo n).toFinset)
    (hholder : seedHolder ∈ w.honestIds) {acts : List Net.Action} {net : Net Bytes}
    (hrun : Net.run w (fun q => froztKeyImportRun lib q n minSigners seedHolder (seed q)
      (accountIndex q) (birthday q) (rng q)) acts = some net) (hp : p ∈ w.honestIds) :
    ImportSound lib.toFrostCore lib.deserializeRound1 id w net
        (termOf lib seedHolder n seed accountIndex)
        (importedSecret lib (seed seedHolder) (accountIndex seedHolder)).toOption (storedKeys lib) p ↔
      BringsOnes lib.toFrostCore lib.deserializeRound1 id w net p := by
  refine Ceremony.importSound_iff doc.toCore hids hrun hholder
    (fun q _ => (froztKeyImportRun_opens doc n minSigners q seedHolder (seed q) (accountIndex q)
      (birthday q) (rng q)).mono fun o ho => ⟨?_, ?_⟩) ?_
    (fun q => stores_importMetadata doc n _ (seed q) (accountIndex q) (birthday q)) hp
  · rw [termOf, ho]
    rfl
  · rintro rfl
    rw [decide_eq_true rfl, importTerm_true] at ho
    cases hs : importedSecret lib (seed q) (accountIndex q) with
    | error e =>
      rw [hs] at ho
      cases ho
    | ok s => rfl
  · intro s hs q
    by_cases hq : q = seedHolder
    · subst hq
      rw [termOf, decide_eq_true rfl, importTerm_true, owedTerm, if_pos rfl]
      cases hsecret : importedSecret lib (seed q) (accountIndex q) with
      | error e =>
        rw [hsecret] at hs
        cases hs
      | ok s' =>
        rw [hsecret] at hs
        obtain rfl := Option.some.inj hs
        rfl
    · rw [termOf, decide_eq_false hq, owedTerm, if_neg hq]
      rfl

end Frozt
