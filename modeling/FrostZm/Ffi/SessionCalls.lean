import FrostZm.Ffi.SignCalls
import FrostZm.Session.Driver

/-!
# Sessions behind handles

A session stays in the handle table. `feed` works on it in a guard, the result is taken out of
the table with it.
-/

set_option linter.unusedSectionVars false

namespace SessionCalls

variable {F G Rng F' G' Rng' : Type} [Field F] [DecidableEq F] [Ord F] [Std.TransOrd F]
  [Std.LawfulEqOrd F] [AddCommGroup G] [Module F G] [Field F'] [DecidableEq F'] [Ord F']
  [Std.TransOrd F'] [Std.LawfulEqOrd F'] [AddCommGroup G'] [Module F' G']

inductive Kind where
  | froztDkg
  | froztSign
  | froztReshare
  | froztKeyImport
  | fromtDkg
  | fromtSign
  | fromtReshare
  | fromtKeyImport
  | fromtKeyImage
deriving DecidableEq, Repr

/-- What a session ends with. -/
abbrev Kind.Output (F G F' G' : Type) [Field F] [Ord F] [Field F'] [Ord F'] : Kind → Type
  | .froztReshare => KeyPackage F G × PublicKeyPackage F G
  | .fromtReshare => KeyPackage F' G' × PublicKeyPackage F' G'
  | _ => Bytes

/-- The objects in the table, as far as they are sessions. -/
inductive Object (F G F' G' : Type) [Field F] [Ord F] [Field F'] [Ord F'] where
  | session (kind : Kind) (protocol : Protocol (kind.Output F G F' G'))
  | other (n : Nat)

def Object.isSession (kind : Kind) : Object F G F' G' → Bool
  | .session k _ => k = kind
  | .other _ => false

/-- The session that a downcast to its kind gives. -/
def Object.session? (kind : Kind) : Object F G F' G' → Option (Protocol (kind.Output F G F' G'))
  | .session k protocol => if h : k = kind then some (h ▸ protocol) else none
  | .other _ => none

abbrev Table (F G F' G' : Type) [Field F] [Ord F] [Field F'] [Ord F'] :=
  HandleTable (Object F G F' G')

/-! ## The calls -/

/-- The body of every `.._session_feed`. `outFinished` says whether the out pointer is given.
The guard puts the session back in any case. -/
def sessionFeed (kind : Kind) (t : Table F G F' G') (session : Int32) (msg : Option Bytes)
    (outFinished : Bool) : Result Bool × Table F G F' G' :=
  match msg with
  | none => (.error LibError.nullPtr, t)
  | some msg =>
    if outFinished = false then (.error LibError.nullPtr, t)
    else
      match t.get (Object.isSession kind) session with
      | .error e => (.error e.code, t)
      | .ok (obj, t) =>
        match obj.session? kind with
        | none => (.error LibError.invalidHandleType, t.put session obj)
        | some protocol =>
          let (done, protocol) := protocol.feed msg
          (.ok done, t.put session (.session kind protocol))

variable (keys : FrostKeys F G Rng) (keys' : FrostKeys F' G' Rng')

def encodeKeys (keys : FrostKeys F G Rng) (r : KeyPackage F G × PublicKeyPackage F G) :
    Result (List Bytes) := do
  let kpBytes ← okOr .serializationError (keys.serializeKeyPackage r.1)
  let pkpBytes ← okOr .serializationError (keys.serializePublicKeyPackage r.2)
  return [kpBytes, pkpBytes]

/-- What a result call writes into its out buffers. -/
def encodeOutput : (kind : Kind) → kind.Output F G F' G' → Result (List Bytes)
  | .froztReshare, r => encodeKeys keys r
  | .fromtReshare, r => encodeKeys keys' r
  | .froztDkg, bundle => .ok [bundle]
  | .froztSign, signature => .ok [signature]
  | .froztKeyImport, bundle => .ok [bundle]
  | .fromtDkg, bundle => .ok [bundle]
  | .fromtSign, signature => .ok [signature]
  | .fromtKeyImport, bundle => .ok [bundle]
  | .fromtKeyImage, keyImages => .ok [keyImages]

/-- The outcome of a session that the call has. -/
def finishResult (kind : Kind) (protocol : Protocol (kind.Output F G F' G')) : Result (List Bytes) := do
  let outcome ← okOr .sessionNotReady protocol.result.1
  let output ← outcome
  encodeOutput keys keys' kind output

/-- The body of every `.._session_result`. `outs` says whether the out pointers are given. -/
def sessionResult (kind : Kind) (t : Table F G F' G') (session : Int32) (outs : Bool) :
    Result (List Bytes) × Table F G F' G' :=
  if outs = false then (.error LibError.nullPtr, t)
  else
    match t.take (Object.isSession kind) session with
    | .error e => (.error e.code, t)
    | .ok (obj, t) =>
      match obj.session? kind with
      | none => (.error LibError.invalidHandleType, t)
      | some protocol => (finishResult keys keys' kind protocol, t)

def froztDkgSessionResult := sessionResult keys keys' .froztDkg
def froztSignSessionResult := sessionResult keys keys' .froztSign
def froztReshareSessionResult := sessionResult keys keys' .froztReshare
def froztKeyImportSessionResult := sessionResult keys keys' .froztKeyImport
def fromtDkgSessionResult := sessionResult keys keys' .fromtDkg
def fromtSignSessionResult := sessionResult keys keys' .fromtSign
def fromtReshareSessionResult := sessionResult keys keys' .fromtReshare
def fromtKeyImportSessionResult := sessionResult keys keys' .fromtKeyImport
def fromtKeyImageSessionResult := sessionResult keys keys' .fromtKeyImage

/-- The table after the frames were fed one by one. -/
def feedAll (kind : Kind) (t : Table F G F' G') (session : Int32) (frames : List Bytes) :
    Table F G F' G' :=
  frames.foldl (fun t frame => (sessionFeed kind t session (some frame) true).2) t

/-- What is promised of a result call that comes too early: it says so, the table is as it was,
and the session goes on to the result that it would have had. -/
structure Harmless (kind : Kind) (t : Table F G F' G') (session : Int32) : Prop where
  notReady : (sessionResult keys keys' kind t session true).1 = .error LibError.sessionNotReady
  table : (sessionResult keys keys' kind t session true).2 = t
  result : ∀ frames,
    (sessionResult keys keys' kind
      (feedAll kind (sessionResult keys keys' kind t session true).2 session frames) session true).1 =
    (sessionResult keys keys' kind (feedAll kind t session frames) session true).1

/-! ## A session is gone after its result was asked for -/

variable {keys keys'} {kind : Kind} {t : Table F G F' G'} {session : Int32}
  {protocol : Protocol (kind.Output F G F' G')}

@[simp] theorem session?_session (kind : Kind) (protocol : Protocol (kind.Output F G F' G')) :
    (Object.session kind protocol).session? kind = some protocol := by
  simp [Object.session?]

theorem take_of_resolve (h : t.resolve (Object.isSession kind) session = .ok (.session kind protocol)) :
    t.take (Object.isSession kind) session = .ok (.session kind protocol, t.intoInner session) := by
  unfold HandleTable.take
  rw [h]
  rfl

/-- Finished or not, the session leaves the table. -/
theorem sessionResult_eq (h : t.resolve (Object.isSession kind) session = .ok (.session kind protocol)) :
    sessionResult keys keys' kind t session true =
      (finishResult keys keys' kind protocol, t.intoInner session) := by
  unfold sessionResult
  rw [if_neg (by decide), take_of_resolve h]
  simp only [session?_session]

theorem resolve_intoInner (isKind : Object F G F' G' → Bool) (hne : session ≠ 0) :
    (t.intoInner session).resolve isKind session = .error .notFound := by
  unfold HandleTable.resolve HandleTable.intoInner
  rw [if_neg hne, HandleTable.getElem?_erase, if_pos rfl]

theorem ne_zero_of_resolve {isKind : Object F G F' G' → Bool} {obj : Object F G F' G'}
    (h : t.resolve isKind session = .ok obj) : session ≠ 0 := by
  rintro rfl
  nomatch h

theorem sessionFeed_intoInner (hne : session ≠ 0) (msg : Bytes) :
    sessionFeed kind (t.intoInner session) session (some msg) true =
      (.error LibError.invalidHandle, t.intoInner session) := by
  have hget : (t.intoInner session).get (Object.isSession kind) session = .error .notFound := by
    unfold HandleTable.get
    rw [resolve_intoInner _ hne]
    rfl
  simp only [sessionFeed, Bool.true_eq_false, if_false, hget]
  rfl

theorem feedAll_intoInner (hne : session ≠ 0) (frames : List Bytes) :
    feedAll kind (t.intoInner session) session frames = t.intoInner session := by
  unfold feedAll
  induction frames with
  | nil => rfl
  | cons frame frames ih => rw [List.foldl_cons, sessionFeed_intoInner hne, ih]

theorem sessionResult_intoInner (hne : session ≠ 0) :
    sessionResult keys keys' kind (t.intoInner session) session true =
      (.error LibError.invalidHandle, t.intoInner session) := by
  unfold sessionResult HandleTable.take
  rw [if_neg (by decide), resolve_intoInner _ hne]
  rfl

theorem not_harmless (h : t.resolve (Object.isSession kind) session = .ok (.session kind protocol)) :
    ¬ Harmless keys keys' kind t session := by
  intro hharm
  have htable : t.intoInner session = t := by
    have htable := hharm.table
    rwa [sessionResult_eq h] at htable
  have hgone := resolve_intoInner (t := t) (Object.isSession kind) (ne_zero_of_resolve h)
  rw [htable, h] at hgone
  nomatch hgone

/-- An early result call destroys the session, whatever its kind and however far it is: it
answers that the session is not ready, and no later call finds the session any more. -/
theorem early_result_destroys
    (h : t.resolve (Object.isSession kind) session = .ok (.session kind protocol))
    (hpending : protocol.outcome = none) :
    (sessionResult keys keys' kind t session true).1 = .error LibError.sessionNotReady ∧
    (∀ frames, (sessionResult keys keys' kind (feedAll kind
      (sessionResult keys keys' kind t session true).2 session frames) session true).1 =
        .error LibError.invalidHandle) ∧
    ¬ Harmless keys keys' kind t session := by
  have hne := ne_zero_of_resolve h
  have heq : sessionResult keys keys' kind t session true =
      (finishResult keys keys' kind protocol, t.intoInner session) := sessionResult_eq h
  refine ⟨?_, fun frames => ?_, not_harmless h⟩
  · rw [heq]
    unfold finishResult Protocol.result
    rw [hpending]
    rfl
  · rw [heq, feedAll_intoInner hne, sessionResult_intoInner hne]

section Samples

open Reference

/-- A key generation that waits for its first frame, under the first handle. -/
def sampleTable : Table Scalar Scalar Scalar Scalar :=
  ⟨3, (∅ : BTreeMap Int32 _).insert 1 (some (.session .froztDkg (.start Protocol.Log.echo)))⟩

theorem resolve_sampleTable : sampleTable.resolve (Object.isSession .froztDkg) 1 =
    .ok (.session .froztDkg (.start Protocol.Log.echo)) := by
  unfold HandleTable.resolve sampleTable
  rw [if_neg (by decide), HandleTable.getElem?_insert, if_pos rfl]
  rfl

/-- Without the early call the session ends with the payload that it is fed. -/
theorem early_result_harms :
    (froztDkgSessionResult Reference.keys Reference.keys
      (feedAll .froztDkg sampleTable 1 [[1, 0, 7]]) 1 true).1 = .ok [[7]] ∧
    ¬ Harmless Reference.keys Reference.keys .froztDkg sampleTable 1 := by
  exact ⟨by decide +kernel, not_harmless resolve_sampleTable⟩

theorem early_result_destroys_sample :
    (sessionResult Reference.keys Reference.keys .froztDkg sampleTable 1 true).1 =
      .error LibError.sessionNotReady ∧
    (∀ frames, (sessionResult Reference.keys Reference.keys .froztDkg (feedAll .froztDkg
      (sessionResult Reference.keys Reference.keys .froztDkg sampleTable 1 true).2 1 frames) 1 true).1 =
        .error LibError.invalidHandle) ∧
    ¬ Harmless Reference.keys Reference.keys .froztDkg sampleTable 1 :=
  early_result_destroys resolve_sampleTable rfl

end Samples

end SessionCalls
