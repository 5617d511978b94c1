import Mathlib

/-!
# Runs that can crash

A run ends with a value, with an error of the program or with a crash. Whether a number that does
not fit in its bits is a crash or is cut is a choice of the build, and `Safe` means both.
`Guarded` says when a run does not crash and what it does then.
-/

namespace Crashes

inductive Crash where
  | outOfRange
  | overflow
  | unwrapNone
deriving DecidableEq, Repr

/-- How a run ends without a value. -/
inductive Stop (ε : Type) where
  | error (e : ε)
  | crash (c : Crash)
deriving DecidableEq, Repr

abbrev Run (ε α : Type) := Except (Stop ε) α

/-- What becomes of numbers that do not fit. -/
inductive Arithmetic where
  | checked
  | wrapping
deriving DecidableEq, Repr

variable {ε α β : Type}

/-- The result of an operation on numbers of `bits` bits. -/
def Arithmetic.fit (ar : Arithmetic) (bits n : Nat) : Run ε Nat :=
  if n < 2 ^ bits then .ok n
  else match ar with
    | .checked => .error (.crash .overflow)
    | .wrapping => .ok (n % 2 ^ bits)

/-- `l[i]`. -/
def get (l : List α) (i : Nat) : Run ε α :=
  match l[i]? with
  | some a => .ok a
  | none => .error (.crash .outOfRange)

/-- `l[start..stop]`. -/
def range (l : List α) (start stop : Nat) : Run ε (List α) :=
  if start ≤ stop ∧ stop ≤ l.length then .ok ((l.drop start).take (stop - start))
  else .error (.crash .outOfRange)

def unwrap : Option α → Run ε α
  | some a => .ok a
  | none => .error (.crash .unwrapNone)

/-- A step that has errors and no crashes. -/
def lift : Except ε α → Run ε α
  | .ok a => .ok a
  | .error e => .error (.error e)

/-- A list of `n` items, if it is one. -/
def sized (n : Nat) (l : List α) : Option (List α) := if l.length = n then some l else none

def Safe (run : Arithmetic → Run ε α) : Prop := ∀ ar c, run ar ≠ .error (.crash c)

/-- Exactly under the condition the run does not crash, and then it does what `spec` does. -/
structure Guarded (run : Arithmetic → Run ε α) (spec : Except ε α) (cond : Prop) : Prop where
  meets : cond → ∀ ar, run ar = lift spec
  crashes : ¬ cond → ∃ c, run .checked = .error (.crash c)

variable {run : Arithmetic → Run ε α} {spec : Except ε α} {cond : Prop}

theorem Guarded.safe_iff (h : Guarded run spec cond) : Safe run ↔ cond := by
  constructor
  · intro hsafe
    by_contra hcond
    obtain ⟨c, hc⟩ := h.crashes hcond
    exact hsafe .checked c hc
  · intro hcond ar c hc
    rw [h.meets hcond ar] at hc
    cases spec with
    | ok a => nomatch hc
    | error e => nomatch hc

theorem Guarded.congr (h : Guarded run spec cond) {cond' : Prop} (hiff : cond ↔ cond') :
    Guarded run spec cond' := by
  rwa [← hiff]

/-! ## Steps -/

theorem guarded_lift (spec : Except ε α) : Guarded (fun _ => lift spec) spec True where
  meets _ _ := rfl
  crashes h := absurd trivial h

theorem guarded_pure (a : α) : Guarded (fun _ => pure a : Arithmetic → Run ε α) (pure a) True where
  meets _ _ := rfl
  crashes h := absurd trivial h

theorem guarded_fit (bits n : Nat) :
    Guarded (fun ar => ar.fit bits n : Arithmetic → Run ε Nat) (.ok n) (n < 2 ^ bits) where
  meets h _ := if_pos h
  crashes h := ⟨.overflow, if_neg h⟩

theorem guarded_get (d : α) (l : List α) (i : Nat) :
    Guarded (fun _ => get l i : Arithmetic → Run ε α) (.ok (l.getD i d)) (i < l.length) where
  meets h _ := by
    rw [get, List.getElem?_eq_getElem h, List.getD_eq_getElem _ _ h]
    rfl
  crashes h := ⟨.outOfRange, by rw [get, List.getElem?_eq_none (Nat.not_lt.mp h)]⟩

theorem guarded_range (l : List α) (start stop : Nat) :
    Guarded (fun _ => range l start stop : Arithmetic → Run ε (List α))
      (.ok ((l.drop start).take (stop - start))) (start ≤ stop ∧ stop ≤ l.length) where
  meets h _ := if_pos h
  crashes h := ⟨.outOfRange, if_neg h⟩

theorem guarded_unwrap (e : ε) (o : Option α) :
    Guarded (fun _ => unwrap o : Arithmetic → Run ε α) (o.elim (.error e) .ok) (o ≠ none) where
  meets h _ := by
    cases o with
    | none => exact absurd rfl h
    | some a => rfl
  crashes h := by
    rw [not_not] at h
    exact ⟨.unwrapNone, by rw [h]; rfl⟩

/-! ## Sequences -/

variable {k : Arithmetic → α → Run ε β} {spec' : α → Except ε β} {cond' : α → Prop}

/-- The condition of a sequence is about the values that the specification goes on with. -/
theorem Guarded.bind (h : Guarded run spec cond)
    (hk : cond → ∀ a, spec = .ok a → Guarded (fun ar => k ar a) (spec' a) (cond' a)) :
    Guarded (fun ar => run ar >>= k ar) (spec >>= spec')
      (cond ∧ ∀ a, spec = .ok a → cond' a) where
  meets := by
    rintro ⟨hcond, hcond'⟩ ar
    rw [h.meets hcond ar]
    cases hspec : spec with
    | error e => rfl
    | ok a => exact (hk hcond a hspec).meets (hcond' a hspec) ar
  crashes := by
    intro hnot
    by_cases hcond : cond
    · have hlater : ∃ a, spec = .ok a ∧ ¬ cond' a := by
        by_contra hall
        push Not at hall
        exact hnot ⟨hcond, hall⟩
      obtain ⟨a, ha, hcond'⟩ := hlater
      obtain ⟨c, hc⟩ := (hk hcond a ha).crashes hcond'
      refine ⟨c, ?_⟩
      rw [h.meets hcond .checked, ha]
      exact hc
    · obtain ⟨c, hc⟩ := h.crashes hcond
      refine ⟨c, ?_⟩
      rw [hc]
      rfl

theorem Guarded.bind_safe (h : Guarded run spec True)
    (hk : ∀ a, spec = .ok a → Guarded (fun ar => k ar a) (spec' a) (cond' a)) :
    Guarded (fun ar => run ar >>= k ar) (spec >>= spec') (∀ a, spec = .ok a → cond' a) :=
  (h.bind fun _ => hk).congr (and_iff_right trivial)

theorem Guarded.then_safe (h : Guarded run spec cond)
    (hk : cond → ∀ a, spec = .ok a → Guarded (fun ar => k ar a) (spec' a) True) :
    Guarded (fun ar => run ar >>= k ar) (spec >>= spec') cond :=
  (h.bind hk).congr (and_iff_left fun _ _ => trivial)

theorem Guarded.bind_value {a : α} {final : Except ε β} {condFinal : Prop}
    (h : Guarded run (.ok a) cond) (hk : cond → Guarded (fun ar => k ar a) final condFinal) :
    Guarded (fun ar => run ar >>= k ar) final (cond ∧ condFinal) where
  meets := by
    rintro ⟨hcond, hfinal⟩ ar
    rw [h.meets hcond ar]
    exact (hk hcond).meets hfinal ar
  crashes := by
    intro hnot
    by_cases hcond : cond
    · rw [h.meets hcond .checked]
      exact (hk hcond).crashes fun hfinal => hnot ⟨hcond, hfinal⟩
    · obtain ⟨c, hc⟩ := h.crashes hcond
      refine ⟨c, ?_⟩
      rw [hc]
      rfl

theorem Guarded.bind_ok {a : α} {final : Except ε β} {condFinal : Prop}
    (h : Guarded run (.ok a) cond) (hcond : cond)
    (hk : Guarded (fun ar => k ar a) final condFinal) :
    Guarded (fun ar => run ar >>= k ar) final condFinal :=
  (h.bind_value fun _ => hk).congr (and_iff_right hcond)

theorem guarded_mapM {f : α → Run ε β} {g : α → Except ε β} {cond : α → Prop}
    (h : ∀ a, Guarded (fun _ => f a) (g a) (cond a)) (hok : ∀ a, cond a → ∃ b, g a = .ok b)
    (l : List α) : Guarded (fun _ => l.mapM f) (l.mapM g) (∀ a ∈ l, cond a) := by
  induction l with
  | nil => exact (guarded_pure []).congr (iff_of_true trivial nofun)
  | cons a l ih =>
    simp only [List.mapM_cons]
    refine ((h a).bind fun _ b _ => ih.then_safe fun _ bs _ => guarded_pure _).congr ?_
    rw [List.forall_mem_cons]
    refine and_congr_right fun ha => ⟨fun hall => ?_, fun hall _ _ => hall⟩
    obtain ⟨b, hb⟩ := hok a ha
    exact hall b hb

end Crashes
