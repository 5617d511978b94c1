import FrostZm.Ffi.Handle
import FrostZm.Frost.ReferenceSigning
import FrostZm.Fromt.Reference

/-!
# Nonces behind handles

Signing leaves its nonces in the handle table between the calls that commit and sign. Calls of
any number of callers interleave, each operation on the table being one step.
-/

set_option linter.unusedSectionVars false

/-- The code that a call returns for an error of the table. -/
def HandleError.code : HandleError → LibError
  | .nullHandle => .invalidHandle
  | .notFound => .invalidHandle
  | .inUse => .handleInUse
  | .invalidType => .invalidHandleType
  | .tableFull => .unknownError

namespace SignCalls

variable {F G Rng F' G' P Rng' : Type} [Field F] [DecidableEq F] [Ord F] [Std.TransOrd F]
  [Std.LawfulEqOrd F] [AddCommGroup G] [Module F G] [Field F'] [DecidableEq F'] [Ord F']
  [Std.TransOrd F'] [Std.LawfulEqOrd F'] [AddCommGroup G'] [Module F' G'] [AddCommGroup P]

/-! ## The calls -/

section Calls

variable (keys : FrostKeys F G Rng) (frost : FrostSigning F G Rng)

/-- `sign_commit` of the ceremonies. -/
def signCommit (keyPackage : KeyPackage F G) (rng : Rng) : Result (SigningNonces F × Bytes) := do
  let (nonces, commitments, _) := frost.commit keyPackage.signingShare rng
  let commitmentsBytes ← okOr .serializationError (frost.serializeCommitments commitments)
  return (nonces, commitmentsBytes)

/-- `frozt_sign_commit` up to the table. `outNonces` and `outCommitments` say which of the
out pointers are given. -/
def froztSignCommit (keyPackage : Option Bytes) (outNonces outCommitments : Bool) (rng : Rng) :
    Result (SigningNonces F × Bytes) := do
  let kpData ← okOr .nullPtr keyPackage
  failIf (outNonces = false) .nullPtr
  failIf (outCommitments = false) .nullPtr
  let kp ← okOr .serializationError (keys.deserializeKeyPackage kpData)
  signCommit frost kp rng

/-- `frozt_sign` before it takes the nonces. -/
def froztSignStart (signingPackage keyPackage randomizerSeed : Option Bytes) (outShare : Bool) :
    Result (SigningPackage F G × Bytes × Bytes) := do
  let spData ← okOr .nullPtr signingPackage
  let kpData ← okOr .nullPtr keyPackage
  let seedData ← okOr .nullPtr randomizerSeed
  failIf (outShare = false) .nullPtr
  let sp ← okOr .serializationError (frost.deserializeSigningPackage spData)
  return (sp, kpData, seedData)

/-- What `frozt_sign` still reads when it has the nonces. -/
def froztSignInputs (kpData seedData : Bytes) : Result (KeyPackage F G × F) := do
  let kp ← okOr .serializationError (keys.deserializeKeyPackage kpData)
  let randomizer ← okOr .signingError (frost.deserializeRandomizer seedData)
  return (kp, randomizer)

/-- The computation of the share at the end of `frozt_sign`. -/
def froztShare (sp : SigningPackage F G) (nonces : SigningNonces F) (kp : KeyPackage F G)
    (randomizer : F) : Result Bytes := do
  let share ← Ceremony.blameErr frost.toFrostCore .signingError
    (frost.signRandomized sp nonces kp randomizer)
  return frost.serializeShare share

end Calls

section Calls

variable (lib : FromtLib F G P Rng) (frost : FrostSigning F G Rng)

/-- `fromt_sign_commit` up to the table. -/
def fromtSignCommit (keyShare : Option Bytes) (outNonces outCommitments : Bool) (rng : Rng) :
    Result (SigningNonces F × Bytes) := do
  let ksData ← okOr .nullPtr keyShare
  failIf (outNonces = false) .nullPtr
  failIf (outCommitments = false) .nullPtr
  let bundle ← Fromt.KeyShareBundle.deserialize lib ksData
  signCommit frost bundle.keyPackage rng

/-- `fromt_sign` before it takes the nonces. -/
def fromtSignStart (signingPackage keyShare : Option Bytes) (outShare : Bool) :
    Result (Bytes × Bytes) := do
  let spData ← okOr .nullPtr signingPackage
  let ksData ← okOr .nullPtr keyShare
  failIf (outShare = false) .nullPtr
  return (spData, ksData)

/-- What `fromt_sign` still reads when it has the nonces. -/
def fromtSignInputs (spData ksData : Bytes) : Result (SigningPackage F G × KeyPackage F G) := do
  let sp ← okOr .serializationError (frost.deserializeSigningPackage spData)
  let bundle ← Fromt.KeyShareBundle.deserialize lib ksData
  return (sp, bundle.keyPackage)

/-- The computation of the share at the end of `fromt_sign`. -/
def fromtShare (sp : SigningPackage F G) (nonces : SigningNonces F) (kp : KeyPackage F G) :
    Result Bytes := do
  let share ← Ceremony.blameErr frost.toFrostCore .signingError (frost.sign sp nonces kp)
  return frost.serializeShare share

end Calls

/-! ## The library with its callers -/

/-- The objects in the table. Nonces carry the number of the call that made them, which the
library does not know; sessions, builders and the rest are told apart by their kind alone. -/
inductive Object (F F' : Type) where
  | froztNonces (serial : Nat) (nonces : SigningNonces F)
  | fromtNonces (serial : Nat) (nonces : SigningNonces F')
  | other (kind : Nat)

namespace Object

def isFroztNonces : Object F F' → Bool
  | .froztNonces _ _ => true
  | _ => false

def isFromtNonces : Object F F' → Bool
  | .fromtNonces _ _ => true
  | _ => false

def isOther (kind : Nat) : Object F F' → Bool
  | .other k => k = kind
  | _ => false

/-- Which nonces these are. -/
def serial : Object F F' → Option Nat
  | .froztNonces serial _ => some serial
  | .fromtNonces serial _ => some serial
  | .other _ => none

end Object

/-- A signing call that has taken its nonces and has not gone on yet. -/
inductive Pending (F G F' : Type) [Field F] [Ord F] where
  | frozt (serial : Nat) (nonces : SigningNonces F) (sp : SigningPackage F G)
      (kpData seedData : Bytes)
  | fromt (serial : Nat) (nonces : SigningNonces F') (spData ksData : Bytes)

def Pending.serial : Pending F G F' → Nat
  | .frozt serial _ _ _ _ => serial
  | .fromt serial _ _ _ => serial

structure State (F G F' : Type) [Field F] [Ord F] where
  table : HandleTable (Object F F')
  /-- The objects that other calls have in guards, with their handles. -/
  guards : List (Int32 × Object F F')
  pending : List (Pending F G F')
  /-- How many pairs of nonces were made. -/
  created : Nat
  /-- The nonces that entered the computation of a share, one entry for each time. -/
  computed : List Nat

def State.init : State F G F' := ⟨.empty, [], [], 0, []⟩

/-- The steps of all callers. The first five belong to the calls that sign; the others are the
operations that all other calls are made of, which ask for other kinds of objects. -/
inductive Action (Rng Rng' : Type) where
  | froztSignCommit (keyPackage : Option Bytes) (outNonces outCommitments : Bool) (rng : Rng)
  | fromtSignCommit (keyShare : Option Bytes) (outNonces outCommitments : Bool) (rng : Rng')
  | froztSign (signingPackage : Option Bytes) (nonces : Int32)
      (keyPackage randomizerSeed : Option Bytes) (outShare : Bool)
  | fromtSign (signingPackage : Option Bytes) (nonces : Int32) (keyShare : Option Bytes)
      (outShare : Bool)
  | finishSign (i : Nat)
  | allocate (kind : Nat)
  | get (kind : Nat) (handle : Int32)
  | dropGuard (i : Nat)
  | intoInner (i : Nat)
  | take (kind : Nat) (handle : Int32)
  | free (handle : Int32)

variable (keys : FrostKeys F G Rng) (frozt : FrostSigning F G Rng) (lib : FromtLib F' G' P Rng')
  (fromt : FrostSigning F' G' Rng')

/-- The rest of a signing call: what it computes, or the error that keeps it from computing. -/
def Pending.finish : Pending F G F' → Result (Result Bytes)
  | .frozt _ nonces sp kpData seedData => do
    let (kp, randomizer) ← froztSignInputs keys frozt kpData seedData
    return froztShare frozt sp nonces kp randomizer
  | .fromt _ nonces spData ksData => do
    let (sp, kp) ← fromtSignInputs lib fromt spData ksData
    return fromtShare fromt sp nonces kp

def step (st : State F G F') : Action Rng Rng' → State F G F'
  | .froztSignCommit keyPackage outNonces outCommitments rng =>
    match froztSignCommit keys frozt keyPackage outNonces outCommitments rng with
    | .error _ => st
    | .ok (nonces, _) => { st with
        table := (st.table.allocate (.froztNonces st.created nonces)).2
        created := st.created + 1 }
  | .fromtSignCommit keyShare outNonces outCommitments rng =>
    match fromtSignCommit lib fromt keyShare outNonces outCommitments rng with
    | .error _ => st
    | .ok (nonces, _) => { st with
        table := (st.table.allocate (.fromtNonces st.created nonces)).2
        created := st.created + 1 }
  | .froztSign signingPackage nonces keyPackage randomizerSeed outShare =>
    match froztSignStart frozt signingPackage keyPackage randomizerSeed outShare with
    | .error _ => st
    | .ok (sp, kpData, seedData) =>
      match st.table.take Object.isFroztNonces nonces with
      | .ok (.froztNonces serial nonces, table) => { st with
          table
          pending := .frozt serial nonces sp kpData seedData :: st.pending }
      | _ => st
  | .fromtSign signingPackage nonces keyShare outShare =>
    match fromtSignStart signingPackage keyShare outShare with
    | .error _ => st
    | .ok (spData, ksData) =>
      match st.table.take Object.isFromtNonces nonces with
      | .ok (.fromtNonces serial nonces, table) => { st with
          table
          pending := .fromt serial nonces spData ksData :: st.pending }
      | _ => st
  | .finishSign i =>
    match st.pending[i]? with
    | none => st
    | some call => { st with
        pending := st.pending.eraseIdx i
        -- whether or not the computation succeeds
        computed := match call.finish keys frozt lib fromt with
          | .ok _ => call.serial :: st.computed
          | .error _ => st.computed }
  | .allocate kind => { st with table := (st.table.allocate (.other kind)).2 }
  | .get kind handle =>
    match st.table.get (Object.isOther kind) handle with
    | .error _ => st
    | .ok (obj, table) => { st with table, guards := (handle, obj) :: st.guards }
  | .dropGuard i =>
    match st.guards[i]? with
    | none => st
    | some (handle, obj) => { st with
        table := st.table.put handle obj
        guards := st.guards.eraseIdx i }
  | .intoInner i =>
    match st.guards[i]? with
    | none => st
    | some (handle, _) => { st with
        table := st.table.intoInner handle
        guards := st.guards.eraseIdx i }
  | .take kind handle =>
    match st.table.take (Object.isOther kind) handle with
    | .error _ => st
    | .ok (_, table) => { st with table }
  | .free handle =>
    match st.table.free handle with
    | .error _ => st
    | .ok table => { st with table }

def run (acts : List (Action Rng Rng')) : State F G F' :=
  acts.foldl (step keys frozt lib fromt) .init

/-! ## Each pair of nonces has one owner -/

/-- A pair of nonces is in one place: under one handle, with one call, or computed with. -/
structure Inv (st : State F G F') : Prop where
  table : ∀ h obj s, st.table.objectAt h = some obj → obj.serial = some s →
    s < st.created ∧ s ∉ st.pending.map Pending.serial ++ st.computed
  unique : ∀ h h' obj obj' s, st.table.objectAt h = some obj → st.table.objectAt h' = some obj' →
    obj.serial = some s → obj'.serial = some s → h = h'
  guards : ∀ g ∈ st.guards, g.2.serial = none
  nodup : (st.pending.map Pending.serial ++ st.computed).Nodup
  lt_created : ∀ s ∈ st.pending.map Pending.serial ++ st.computed, s < st.created

variable {keys frozt lib fromt} {st : State F G F'}

theorem inv_init : Inv (.init : State F G F') where
  table h obj s hobj _ := by
    simp [State.init, HandleTable.objectAt, HandleTable.empty] at hobj
  unique h h' obj obj' s hobj _ _ _ := by
    simp [State.init, HandleTable.objectAt, HandleTable.empty] at hobj
  guards := nofun
  nodup := List.nodup_nil
  lt_created := nofun

theorem Inv.of_table (hi : Inv st) {table : HandleTable (Object F F')}
    {guards : List (Int32 × Object F F')} (hguards : ∀ g ∈ guards, g.2.serial = none)
    (htable : ∀ h obj s, table.objectAt h = some obj → obj.serial = some s →
      st.table.objectAt h = some obj) : Inv { st with table, guards } where
  table h obj s hobj hs := hi.table h obj s (htable h obj s hobj hs) hs
  unique h h' obj obj' s hobj hobj' hs hs' :=
    hi.unique h h' obj obj' s (htable h obj s hobj hs) (htable h' obj' s hobj' hs') hs hs'
  guards := hguards
  nodup := hi.nodup
  lt_created := hi.lt_created

theorem Inv.commit (hi : Inv st) {obj : Object F F'} (hobj : obj.serial = some st.created) :
    Inv { st with table := (st.table.allocate obj).2, created := st.created + 1 } := by
  have hold : ∀ h o s, st.table.objectAt h = some o → o.serial = some s → s ≠ st.created :=
    fun h o s ho hs => (hi.table h o s ho hs).1.ne
  have hnew : ∀ h o s, (st.table.allocate obj).2.objectAt h = some o → o.serial = some s →
      st.table.objectAt h = some o ∨ (st.table.allocate obj).1 = .ok h ∧ o = obj := by
    intro h o s ho hs
    rcases halloc : st.table.allocate obj with ⟨e | handle, table⟩
    · rw [halloc] at ho
      unfold HandleTable.objectAt at ho ⊢
      rw [HandleTable.allocate_error halloc] at ho
      exact .inl ho
    · rw [halloc, (HandleTable.allocate_ok halloc).2] at ho
      split at ho
      · next heq =>
        rw [heq]
        exact .inr ⟨rfl, (Option.some.inj ho).symm⟩
      · exact .inl ho
  constructor
  · intro h o s ho hs
    rcases hnew h o s ho hs with hin | ⟨-, rfl⟩
    · obtain ⟨hlt, hnot⟩ := hi.table h o s hin hs
      exact ⟨hlt.trans (Nat.lt_succ_self _), hnot⟩
    · rw [hobj] at hs
      obtain rfl := Option.some.inj hs
      exact ⟨Nat.lt_succ_self _, fun hmem => absurd (hi.lt_created _ hmem) (lt_irrefl _)⟩
  · intro h h' o o' s ho ho' hs hs'
    rcases hnew h o s ho hs with hin | ⟨hh, rfl⟩
    · rcases hnew h' o' s ho' hs' with hin' | ⟨-, rfl⟩
      · exact hi.unique h h' o o' s hin hin' hs hs'
      · exact absurd (Option.some.inj (hs'.symm.trans hobj)) (hold h o s hin hs)
    · rcases hnew h' o' s ho' hs' with hin' | ⟨hh', -⟩
      · exact absurd (Option.some.inj (hs.symm.trans hobj)) (hold h' o' s hin' hs')
      · exact Except.ok.inj (hh.symm.trans hh')
  · exact hi.guards
  · exact hi.nodup
  · intro s hs
    exact (hi.lt_created s hs).trans (Nat.lt_succ_self _)

theorem Inv.sign (hi : Inv st) {handle : Int32} {obj : Object F F'} {call : Pending F G F'}
    (hobj : st.table.objectAt handle = some obj) (hserial : obj.serial = some call.serial) :
    Inv { st with table := st.table.intoInner handle, pending := call :: st.pending } := by
  have hleft : ∀ h o, (st.table.intoInner handle).objectAt h = some o →
      h ≠ handle ∧ st.table.objectAt h = some o := by
    intro h o ho
    rw [HandleTable.objectAt_intoInner] at ho
    split at ho
    · nomatch ho
    · next hne => exact ⟨hne, ho⟩
  obtain ⟨hlt, hnot⟩ := hi.table handle obj _ hobj hserial
  constructor
  · intro h o s ho hs
    obtain ⟨hne, ho⟩ := hleft h o ho
    obtain ⟨hlt', hnot'⟩ := hi.table h o s ho hs
    refine ⟨hlt', fun hmem => ?_⟩
    rcases List.mem_cons.mp hmem with rfl | hmem
    · exact hne (hi.unique h handle o obj _ ho hobj hs hserial)
    · exact hnot' hmem
  · intro h h' o o' s ho ho' hs hs'
    exact hi.unique h h' o o' s (hleft h o ho).2 (hleft h' o' ho').2 hs hs'
  · exact hi.guards
  · exact List.nodup_cons.mpr ⟨hnot, hi.nodup⟩
  · exact List.forall_mem_cons.mpr ⟨hlt, hi.lt_created⟩

theorem Inv.finish (hi : Inv st) {i : Nat} {call : Pending F G F'} (hcall : st.pending[i]? = some call)
    {computed : List Nat} (hcomputed : computed.Sublist (call.serial :: st.computed)) :
    Inv { st with pending := st.pending.eraseIdx i, computed } := by
  obtain ⟨hlt, rfl⟩ := List.getElem?_eq_some_iff.mp hcall
  have hperm : (st.pending.map Pending.serial ++ st.computed).Perm
      ((st.pending.eraseIdx i).map Pending.serial ++ (st.pending[i].serial :: st.computed)) := by
    have h := ((List.getElem_cons_eraseIdx_perm hlt).symm.map Pending.serial).append_right st.computed
    exact h.trans List.perm_middle.symm
  have hsub : ((st.pending.eraseIdx i).map Pending.serial ++ computed).Sublist
      ((st.pending.eraseIdx i).map Pending.serial ++ (st.pending[i].serial :: st.computed)) :=
    List.Sublist.append (List.Sublist.refl _) hcomputed
  have hmem : ∀ s, s ∈ (st.pending.eraseIdx i).map Pending.serial ++ computed →
      s ∈ st.pending.map Pending.serial ++ st.computed :=
    fun s hs => hperm.mem_iff.mpr (hsub.subset hs)
  constructor
  · intro h o s ho hs
    obtain ⟨hlt', hnot⟩ := hi.table h o s ho hs
    exact ⟨hlt', fun hin => hnot (hmem s hin)⟩
  · exact hi.unique
  · exact hi.guards
  · exact (hperm.nodup_iff.mp hi.nodup).sublist hsub
  · exact fun s hs => hi.lt_created s (hmem s hs)

theorem serial_of_isOther {kind : Nat} {obj : Object F F'} (h : obj.isOther kind = true) :
    obj.serial = none := by
  cases obj with
  | froztNonces serial nonces => nomatch h
  | fromtNonces serial nonces => nomatch h
  | other kind => rfl

theorem inv_step (hi : Inv st) (a : Action Rng Rng') : Inv (step keys frozt lib fromt st a) := by
  have herase : ∀ {handle : Int32} {guards : List (Int32 × Object F F')},
      (∀ g ∈ guards, g.2.serial = none) →
        Inv { st with table := st.table.intoInner handle, guards } := by
    intro handle guards hguards
    refine hi.of_table hguards fun h o s ho _ => ?_
    rw [HandleTable.objectAt_intoInner] at ho
    split at ho
    · nomatch ho
    · exact ho
  have hrest : ∀ i, ∀ g ∈ st.guards.eraseIdx i, g.2.serial = none :=
    fun i g hg => hi.guards g ((List.eraseIdx_sublist _ _).subset hg)
  cases a with
  | froztSignCommit keyPackage outNonces outCommitments rng =>
    simp only [step]
    split
    · exact hi
    · exact hi.commit rfl
  | fromtSignCommit keyShare outNonces outCommitments rng =>
    simp only [step]
    split
    · exact hi
    · exact hi.commit rfl
  | froztSign signingPackage nonces keyPackage randomizerSeed outShare =>
    simp only [step]
    split
    · exact hi
    · split
      · next htake =>
        obtain ⟨hobj, -, rfl⟩ := HandleTable.take_ok htake
        exact hi.sign hobj rfl
      · exact hi
  | fromtSign signingPackage nonces keyShare outShare =>
    simp only [step]
    split
    · exact hi
    · split
      · next htake =>
        obtain ⟨hobj, -, rfl⟩ := HandleTable.take_ok htake
        exact hi.sign hobj rfl
      · exact hi
  | finishSign i =>
    simp only [step]
    split
    · exact hi
    · next hcall =>
      refine hi.finish hcall ?_
      split
      · exact List.Sublist.refl _
      · exact List.sublist_cons_self _ _
  | allocate kind =>
    simp only [step]
    refine hi.of_table hi.guards fun h o s ho hs => ?_
    rcases halloc : st.table.allocate (.other kind) with ⟨e | handle, table⟩
    · rw [halloc] at ho
      unfold HandleTable.objectAt at ho ⊢
      rwa [HandleTable.allocate_error halloc] at ho
    · rw [halloc, (HandleTable.allocate_ok halloc).2] at ho
      split at ho
      · obtain rfl := Option.some.inj ho
        nomatch hs
      · exact ho
  | get kind handle =>
    simp only [step]
    split
    · exact hi
    · next hget =>
      obtain ⟨-, hkind, htable⟩ := HandleTable.get_ok hget
      refine hi.of_table (List.forall_mem_cons.mpr ⟨serial_of_isOther hkind, hi.guards⟩) ?_
      intro h o s ho _
      rw [htable] at ho
      split at ho
      · nomatch ho
      · exact ho
  | dropGuard i =>
    simp only [step]
    split
    · exact hi
    · next handle obj hguard =>
      refine hi.of_table (hrest i) fun h o s ho hs => ?_
      rw [HandleTable.objectAt_put] at ho
      split at ho
      · obtain rfl := Option.some.inj ho
        rw [hi.guards _ (List.mem_of_getElem? hguard)] at hs
        nomatch hs
      · exact ho
  | intoInner i =>
    simp only [step]
    split
    · exact hi
    · exact herase (hrest i)
  | take kind handle =>
    simp only [step]
    split
    · exact hi
    · next htake =>
      obtain ⟨-, -, rfl⟩ := HandleTable.take_ok htake
      exact herase hi.guards
  | free handle =>
    simp only [step]
    split
    · exact hi
    · next hfree =>
      obtain rfl := HandleTable.free_ok hfree
      exact herase hi.guards

theorem inv_run (acts : List (Action Rng Rng')) : Inv (run keys frozt lib fromt acts) := by
  induction acts using List.reverseRecOn with
  | nil => exact inv_init
  | append_singleton acts a ih =>
    unfold run at ih ⊢
    rw [List.foldl_append]
    exact inv_step ih a

/-- Whatever is called in whatever order, no nonces enter two computations of a share. -/
theorem nonces_used_once (keys : FrostKeys F G Rng) (frozt : FrostSigning F G Rng)
    (lib : FromtLib F' G' P Rng') (fromt : FrostSigning F' G' Rng')
    (acts : List (Action Rng Rng')) : (run keys frozt lib fromt acts).computed.Nodup :=
  (List.nodup_append.mp (inv_run acts).nodup).2.1

section Sample

open Reference

/-- A participant signs twice with the handle of one commitment. -/
def sampleCalls : List (Action Nat Nat) :=
  let key := serializeKeyPackage ⟨sampleIdent 1, 5, 5, 7, 2⟩
  let package := some (header ++ u32ToLeBytes 0)
  let seed := some (encodeScalar 3)
  [.froztSignCommit key true true 0, .froztSign package 1 key seed true,
    .froztSign package 1 key seed true, .finishSign 0, .finishSign 0]

theorem nonces_used_once_sample :
    (run Reference.keys signing Reference.fromt signing sampleCalls).computed.Nodup :=
  nonces_used_once Reference.keys signing Reference.fromt signing sampleCalls

end Sample

end SignCalls
