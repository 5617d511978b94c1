import FrostZm.Lib.LittleEndian
import Mathlib.Data.List.Forall2

/-!
# Result codes

The codes every exported function returns, and the blamed party that a failed
ceremony leaves behind for the caller.
-/

abbrev Bytes := List UInt8

instance lawfulBEq_bytes : LawfulBEq Bytes := inferInstance

inductive LibError where
  | ok
  | invalidHandle
  | handleInUse
  | invalidHandleType
  | nullPtr
  | invalidBufferSize
  | unknownError
  | serializationError
  | invalidIdentifier
  | dkgError
  | signingError
  | reshareError
  | keyImportError
  | saplingError
  | ckdError
  | addressError
  | sessionNotReady
  | blame
deriving DecidableEq, Repr

/-- An error code with the party that `set_blamed_party` recorded on the way, if any. -/
structure Fault where
  code : LibError
  blamed : Option UInt16 := none
deriving DecidableEq, Repr

instance : Coe LibError Fault := ⟨fun code => { code }⟩

/-- The error type of the ceremonies' fallible steps. -/
abbrev Result (α : Type) := Except Fault α

/-- `Result::map_err` with a fixed code. -/
def mapErr {ε α : Type} (code : LibError) : Except ε α → Result α
  | .ok a => .ok a
  | .error _ => .error code

/-- `Option::ok_or` with a fixed code. -/
def okOr {α : Type} (code : LibError) : Option α → Result α
  | some a => .ok a
  | none => .error code

/-- `if cond { return Err(code) }`. -/
def failIf (cond : Prop) [Decidable cond] (code : LibError) : Result Unit :=
  if cond then .error (code : Fault) else .ok ()

@[simp] theorem failIf_eq_ok {cond : Prop} [Decidable cond] {code : LibError} {u : Unit} :
    failIf cond code = .ok u ↔ ¬ cond := by
  unfold failIf
  split <;> simp [*]

@[simp] theorem mapErr_eq_ok {ε α : Type} {code : LibError} {x : Except ε α} {a : α} :
    mapErr code x = .ok a ↔ x = .ok a := by
  cases x <;> simp [mapErr]

@[simp] theorem okOr_eq_ok {α : Type} {code : LibError} {x : Option α} {a : α} :
    okOr code x = .ok a ↔ x = some a := by
  cases x <;> simp [okOr]

@[simp] theorem mapErr_ok {ε α : Type} (code : LibError) (a : α) :
    mapErr code (.ok a : Except ε α) = .ok a := rfl

@[simp] theorem mapErr_error {ε α : Type} (code : LibError) (e : ε) :
    (mapErr code (.error e : Except ε α)) = .error (code : Fault) := rfl

@[simp] theorem okOr_some {α : Type} (code : LibError) (a : α) : okOr code (some a) = .ok a := rfl

@[simp] theorem okOr_none {α : Type} (code : LibError) :
    okOr code (none : Option α) = .error (code : Fault) := rfl

/-- `if cond { return Err(JsError::new(message)) }`. -/
def failWith (cond : Prop) [Decidable cond] (message : String) : Except String Unit :=
  if cond then .error message else .ok ()

@[simp] theorem failWith_eq_ok {cond : Prop} [Decidable cond] {message : String} {u : Unit} :
    failWith cond message = .ok u ↔ ¬ cond := by
  unfold failWith
  split <;> simp [*]

/-- `x.ok_or_else(|| JsError::new(message))`. -/
def okOrMessage {α : Type} (message : String) : Option α → Except String α
  | some a => .ok a
  | none => .error message

@[simp] theorem okOrMessage_eq_ok {α : Type} {message : String} {x : Option α} {a : α} :
    okOrMessage message x = .ok a ↔ x = some a := by
  cases x <;> simp [okOrMessage]

theorem bind_eq_ok {ε α β : Type} {x : Except ε α} {f : α → Except ε β} {b : β} :
    (x >>= f) = .ok b ↔ ∃ a, x = .ok a ∧ f a = .ok b := by
  cases x <;> simp [bind, Except.bind]

theorem map_eq_ok {ε α β : Type} {x : Except ε α} {f : α → β} {b : β} :
    f <$> x = .ok b ↔ ∃ a, x = .ok a ∧ f a = b := by
  cases x <;> simp [Functor.map, Except.map]

theorem toOption_eq_some {ε α : Type} {x : Except ε α} {a : α} :
    x.toOption = some a ↔ x = .ok a := by
  cases x <;> simp [Except.toOption]

theorem mapM_ok {ε α β : Type} {f : α → Except ε β} {g : α → β} {l : List α}
    (h : ∀ a ∈ l, f a = .ok (g a)) : l.mapM f = .ok (l.map g) := by
  induction l with
  | nil => rfl
  | cons a l ih =>
    rw [List.forall_mem_cons] at h
    rw [List.mapM_cons, h.1, ih h.2]
    rfl

theorem mapM_eq_ok {ε α β : Type} {f : α → Except ε β} {l : List α} {l' : List β} :
    l.mapM f = .ok l' ↔ List.Forall₂ (fun x y => f x = .ok y) l l' := by
  induction l generalizing l' with
  | nil =>
    rw [List.mapM_nil, List.forall₂_nil_left_iff]
    exact ⟨fun h => (Except.ok.inj h).symm, fun h => h ▸ rfl⟩
  | cons x l ih =>
    rw [List.mapM_cons]
    simp only [bind_eq_ok, ih, List.forall₂_cons_left_iff]
    constructor
    · rintro ⟨y, hy, ys, hys, h⟩
      exact ⟨y, ys, hy, hys, (Except.ok.inj h).symm⟩
    · rintro ⟨y, ys, hy, hys, rfl⟩
      exact ⟨y, hy, ys, hys, rfl⟩

theorem exists_of_forall₂ {β γ : Type} {R : β → γ → Prop} {l : List β} {l' : List γ}
    (h : List.Forall₂ R l l') {x : β} (hx : x ∈ l) : ∃ y ∈ l', R x y := by
  induction h with
  | nil => exact absurd hx List.not_mem_nil
  | cons hxy _ ih =>
    rcases List.mem_cons.mp hx with rfl | hx
    · exact ⟨_, List.mem_cons_self, hxy⟩
    · obtain ⟨y, hy, hR⟩ := ih hx
      exact ⟨y, List.mem_cons_of_mem _ hy, hR⟩

theorem mapM_okOr {α β : Type} {code : LibError} {f : α → Option β} {l : List α} {bs : List β}
    (h : l.mapM f = some bs) : l.mapM (fun a => okOr code (f a)) = .ok bs := by
  induction l generalizing bs with
  | nil =>
    obtain rfl := Option.some.inj h
    rfl
  | cons a l ih =>
    rw [List.mapM_cons] at h ⊢
    obtain ⟨b, hb, h⟩ := Option.bind_eq_some_iff.mp h
    obtain ⟨bs', hbs, h⟩ := Option.bind_eq_some_iff.mp h
    obtain rfl := Option.some.inj h
    rw [hb, ih hbs]
    rfl
