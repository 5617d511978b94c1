import Mathlib.Data.List.Basic
import Mathlib.Tactic.Common

/-!
# Resumable computations

A computation that writes outputs, pauses for inputs, and ends with a value or
a failure. What it does depends only on the inputs it has read, so `eval` and
`outs` describe a whole run by the list of inputs fed so far.
-/

inductive Proc (ε ι ω α : Type) where
  | ret (a : α)
  | fail (e : ε)
  | emit (o : ω) (next : Proc ε ι ω α)
  | recv (next : ι → Proc ε ι ω α)

namespace Proc

variable {ε ι ω α β σ : Type}

protected def bind : Proc ε ι ω α → (α → Proc ε ι ω β) → Proc ε ι ω β
  | ret a, f => f a
  | fail e, _ => fail e
  | emit o p, f => emit o (p.bind f)
  | recv k, f => recv fun i => (k i).bind f

instance : Monad (Proc ε ι ω) where
  pure := ret
  bind := Proc.bind

/-- A pure step that may fail. -/
def lift : Except ε α → Proc ε ι ω α
  | .ok a => ret a
  | .error e => fail e

instance : MonadLift (Except ε) (Proc ε ι ω) := ⟨lift⟩

/-- Waits for one input. -/
def input : Proc ε ι ω ι := recv ret

/-- Writes one output. -/
def output (o : ω) : Proc ε ι ω Unit := emit o (ret ())

@[simp] theorem pure_eq (a : α) : (pure a : Proc ε ι ω α) = ret a := rfl
@[simp] theorem ret_bind (a : α) (f : α → Proc ε ι ω β) : (ret a >>= f) = f a := rfl
@[simp] theorem fail_bind (e : ε) (f : α → Proc ε ι ω β) : (fail e >>= f) = fail e := rfl
@[simp] theorem emit_bind (o : ω) (p : Proc ε ι ω α) (f : α → Proc ε ι ω β) :
    (emit o p >>= f) = emit o (p >>= f) := rfl
@[simp] theorem recv_bind (k : ι → Proc ε ι ω α) (f : α → Proc ε ι ω β) :
    (recv k >>= f) = recv fun i => k i >>= f := rfl
@[simp] theorem lift_ok (a : α) : (lift (.ok a) : Proc ε ι ω α) = ret a := rfl
@[simp] theorem lift_error (e : ε) : (lift (.error e) : Proc ε ι ω α) = fail e := rfl
@[simp] theorem liftM_eq (x : Except ε α) : (liftM x : Proc ε ι ω α) = lift x := rfl
@[simp] theorem monadLift_eq (x : Except ε α) : (monadLift x : Proc ε ι ω α) = lift x := rfl

theorem bind_ret (p : Proc ε ι ω α) : (p >>= ret) = p := by
  induction p with
  | ret a => rfl
  | fail e => rfl
  | emit o p ih => rw [emit_bind, ih]
  | recv k ih => rw [recv_bind, funext ih]

theorem bind_bind (p : Proc ε ι ω α) (f : α → Proc ε ι ω β) (g : β → Proc ε ι ω σ) :
    (p >>= f) >>= g = p >>= fun a => f a >>= g := by
  induction p with
  | ret a => rfl
  | fail e => rfl
  | emit o p ih => rw [emit_bind, emit_bind, emit_bind, ih]
  | recv k ih => simp only [recv_bind, ih]

/-! ## Runs -/

/-- How the computation ends on the inputs `h`, with the inputs it leaves unread.
`none` means that it still waits for an input. -/
def eval : Proc ε ι ω α → List ι → Option (Except ε α × List ι)
  | ret a, h => some (.ok a, h)
  | fail e, h => some (.error e, h)
  | emit _ p, h => p.eval h
  | recv _, [] => none
  | recv k, i :: h => (k i).eval h

/-- The outputs written while reading the inputs `h`. -/
def outs : Proc ε ι ω α → List ι → List ω
  | ret _, _ => []
  | fail _, _ => []
  | emit o p, h => o :: p.outs h
  | recv _, [] => []
  | recv k, i :: h => (k i).outs h

@[simp] theorem eval_ret (a : α) (h : List ι) :
    (ret a : Proc ε ι ω α).eval h = some (.ok a, h) := rfl
@[simp] theorem eval_fail (e : ε) (h : List ι) :
    (fail e : Proc ε ι ω α).eval h = some (.error e, h) := rfl
@[simp] theorem eval_emit (o : ω) (p : Proc ε ι ω α) (h : List ι) :
    (emit o p).eval h = p.eval h := rfl
@[simp] theorem eval_recv_nil (k : ι → Proc ε ι ω α) : (recv k).eval [] = none := rfl
@[simp] theorem eval_recv_cons (k : ι → Proc ε ι ω α) (i : ι) (h : List ι) :
    (recv k).eval (i :: h) = (k i).eval h := rfl
@[simp] theorem eval_lift (x : Except ε α) (h : List ι) :
    (lift x : Proc ε ι ω α).eval h = some (x, h) := by
  cases x <;> rfl

@[simp] theorem outs_ret (a : α) (h : List ι) : (ret a : Proc ε ι ω α).outs h = [] := rfl
@[simp] theorem outs_fail (e : ε) (h : List ι) : (fail e : Proc ε ι ω α).outs h = [] := rfl
@[simp] theorem outs_emit (o : ω) (p : Proc ε ι ω α) (h : List ι) :
    (emit o p).outs h = o :: p.outs h := rfl
@[simp] theorem outs_recv_nil (k : ι → Proc ε ι ω α) : (recv k).outs [] = [] := rfl
@[simp] theorem outs_recv_cons (k : ι → Proc ε ι ω α) (i : ι) (h : List ι) :
    (recv k).outs (i :: h) = (k i).outs h := rfl
@[simp] theorem outs_lift (x : Except ε α) (h : List ι) :
    (lift x : Proc ε ι ω α).outs h = [] := by
  cases x <;> rfl

theorem eval_bind (p : Proc ε ι ω α) (f : α → Proc ε ι ω β) (h : List ι) :
    (p >>= f).eval h = (p.eval h).bind fun
      | (.ok a, r) => (f a).eval r
      | (.error e, r) => some (.error e, r) := by
  induction p generalizing h with
  | ret a => rfl
  | fail e => rfl
  | emit o p ih => simpa using ih h
  | recv k ih =>
    cases h with
    | nil => rfl
    | cons i h => simpa using ih i h

theorem outs_bind (p : Proc ε ι ω α) (f : α → Proc ε ι ω β) (h : List ι) :
    (p >>= f).outs h = p.outs h ++ match p.eval h with
      | some (.ok a, r) => (f a).outs r
      | _ => [] := by
  induction p generalizing h with
  | ret a => rfl
  | fail e => rfl
  | emit o p ih => simp [ih h]
  | recv k ih =>
    cases h with
    | nil => rfl
    | cons i h => simpa using ih i h

theorem exists_eval_ok {p : Proc ε ι ω α} {h : List ι}
    (hsome : ((p.eval h).bind fun r => r.1.toOption).isSome) :
    ∃ a r, p.eval h = some (.ok a, r) := by
  rcases hp : p.eval h with _ | ⟨_ | a, r⟩
  · simp [hp] at hsome
  · simp [hp, Except.toOption] at hsome
  · exact ⟨a, r, rfl⟩

/-! ## One run inside a longer one -/

theorem eval_bind_ok {p : Proc ε ι ω α} {f : α → Proc ε ι ω β} {h r : List ι} {b : β} :
    (p >>= f).eval h = some (.ok b, r) ↔
      ∃ a s, p.eval h = some (.ok a, s) ∧ (f a).eval s = some (.ok b, r) := by
  rw [eval_bind]
  rcases hp : p.eval h with _ | ⟨_ | a, s⟩
  · simp
  · simp
  · simp

theorem eval_liftM_bind_ok {x : Except ε α} {f : α → Proc ε ι ω β} {h r : List ι} {b : β} :
    ((liftM x : Proc ε ι ω α) >>= f).eval h = some (.ok b, r) ↔
      ∃ a, x = .ok a ∧ (f a).eval h = some (.ok b, r) := by
  cases x with
  | ok a => simp
  | error e => simp

theorem eval_bind_of_ok {p : Proc ε ι ω α} {h s : List ι} {a : α}
    (hp : p.eval h = some (.ok a, s)) (f : α → Proc ε ι ω β) :
    (p >>= f).eval h = (f a).eval s := by
  rw [eval_bind, hp]; rfl

theorem eval_bind_of_error {p : Proc ε ι ω α} {h s : List ι} {e : ε}
    (hp : p.eval h = some (.error e, s)) (f : α → Proc ε ι ω β) :
    (p >>= f).eval h = some (.error e, s) := by
  rw [eval_bind, hp]; rfl

theorem eval_bind_of_none {p : Proc ε ι ω α} {h : List ι} (hp : p.eval h = none)
    (f : α → Proc ε ι ω β) : (p >>= f).eval h = none := by
  rw [eval_bind, hp]; rfl

theorem outs_bind_of_ok {p : Proc ε ι ω α} {h s : List ι} {a : α}
    (hp : p.eval h = some (.ok a, s)) (f : α → Proc ε ι ω β) :
    (p >>= f).outs h = p.outs h ++ (f a).outs s := by
  rw [outs_bind, hp]

theorem outs_bind_of_none {p : Proc ε ι ω α} {h : List ι} (hp : p.eval h = none)
    (f : α → Proc ε ι ω β) : (p >>= f).outs h = p.outs h := by
  rw [outs_bind, hp, List.append_nil]

theorem eval_append {p : Proc ε ι ω α} {h r : List ι} {x : Except ε α}
    (hp : p.eval h = some (x, r)) (t : List ι) : p.eval (h ++ t) = some (x, r ++ t) := by
  induction p generalizing h with
  | ret a => simp_all
  | fail e => simp_all
  | emit o p ih => exact ih hp
  | recv k ih =>
    cases h with
    | nil => simp at hp
    | cons i h => exact ih i hp

theorem outs_append_of_done {p : Proc ε ι ω α} {h r : List ι} {x : Except ε α}
    (hp : p.eval h = some (x, r)) (t : List ι) : p.outs (h ++ t) = p.outs h := by
  induction p generalizing h with
  | ret a => rfl
  | fail e => rfl
  | emit o p ih => simpa using ih hp
  | recv k ih =>
    cases h with
    | nil => simp at hp
    | cons i h => exact ih i hp

/-! ## Loops that read a fixed number of inputs -/

/-- Reads `n` inputs and folds each into the state. -/
def collect (step : σ → ι → Except ε σ) : Nat → σ → Proc ε ι ω σ
  | 0, s => ret s
  | n + 1, s => do
    let i ← input
    let s ← lift (step s i)
    collect step n s

variable {step : σ → ι → Except ε σ}

@[simp] theorem collect_zero (s : σ) : (collect step 0 s : Proc ε ι ω σ) = ret s := rfl

theorem collect_image {τ : Type} {step' : τ → ι → Except ε τ} (φ : σ → τ)
    (h : ∀ s i, step' (φ s) i = (step s i).map φ) (n : Nat) (s : σ) :
    (collect step' n (φ s) : Proc ε ι ω τ) = collect step n s >>= fun s => ret (φ s) := by
  induction n generalizing s with
  | zero => rfl
  | succ n ih =>
    refine congrArg recv (funext fun i => ?_)
    change (lift (step' (φ s) i) >>= collect step' n : Proc ε ι ω τ) =
      (lift (step s i) >>= collect step n) >>= fun s => ret (φ s)
    rw [h, bind_bind]
    cases hs : step s i with
    | error e => rfl
    | ok s' => exact ih s'

theorem eval_collect_cons (n : Nat) (s : σ) (i : ι) (h : List ι) :
    (collect step (n + 1) s : Proc ε ι ω σ).eval (i :: h) =
      (lift (step s i) >>= collect step n : Proc ε ι ω σ).eval h := rfl

@[simp] theorem outs_collect (n : Nat) (s : σ) (h : List ι) :
    (collect step n s : Proc ε ι ω σ).outs h = [] := by
  induction n generalizing s h with
  | zero => rfl
  | succ n ih =>
    cases h with
    | nil => rfl
    | cons i h =>
      change (lift (step s i) >>= collect step n : Proc ε ι ω σ).outs h = []
      cases hs : step s i <;> simp [ih]

theorem eval_collect_ok_iff {n : Nat} {s s' : σ} {h r : List ι} :
    (collect step n s : Proc ε ι ω σ).eval h = some (.ok s', r) ↔
      ∃ l, h = l ++ r ∧ l.length = n ∧ l.foldlM step s = .ok s' := by
  induction n generalizing s h with
  | zero =>
    simp only [collect_zero, eval_ret, Option.some.injEq, Prod.mk.injEq, Except.ok.injEq]
    constructor
    · rintro ⟨rfl, rfl⟩
      exact ⟨[], rfl, rfl, rfl⟩
    · rintro ⟨l, rfl, hl, hs⟩
      obtain rfl := List.eq_nil_of_length_eq_zero hl
      exact ⟨Except.ok.inj hs, rfl⟩
  | succ n ih =>
    cases h with
    | nil =>
      simp only [collect, input, recv_bind, eval_recv_nil, reduceCtorEq, false_iff]
      rintro ⟨l, hl, hn, -⟩
      simp [List.append_eq_nil_iff.mp hl.symm] at hn
    | cons i h =>
      rw [eval_collect_cons]
      cases hs : step s i with
      | error e =>
        simp only [lift_error, fail_bind, eval_fail, Option.some.injEq, Prod.mk.injEq, reduceCtorEq,
          false_and, false_iff]
        rintro ⟨_ | ⟨j, l⟩, hl, hn, hf⟩
        · simp at hn
        · obtain ⟨rfl, -⟩ := List.cons.inj hl
          simp [List.foldlM_cons, hs, bind, Except.bind] at hf
      | ok s₁ =>
        simp only [lift_ok, ret_bind, ih]
        constructor
        · rintro ⟨l, rfl, rfl, hf⟩
          exact ⟨i :: l, rfl, rfl, by simpa [List.foldlM_cons, hs, bind, Except.bind] using hf⟩
        · rintro ⟨_ | ⟨j, l⟩, hl, hn, hf⟩
          · simp at hn
          · obtain ⟨rfl, rfl⟩ := List.cons.inj hl
            exact ⟨l, rfl, by simpa using hn, by simpa [List.foldlM_cons, hs, bind, Except.bind] using hf⟩

theorem eval_collect_of_lt {n : Nat} {s s' : σ} {h : List ι} (hn : h.length < n)
    (hf : h.foldlM step s = .ok s') : (collect step n s : Proc ε ι ω σ).eval h = none := by
  induction h generalizing n s with
  | nil => cases n with
    | zero => simp at hn
    | succ n => rfl
  | cons i h ih =>
    cases n with
    | zero => simp at hn
    | succ n =>
      rw [eval_collect_cons]
      cases hs : step s i with
      | error e => simp [List.foldlM_cons, hs, bind, Except.bind] at hf
      | ok s₁ =>
        simp only [List.foldlM_cons, hs, bind, Except.bind] at hf
        simpa using ih (by simpa using hn) hf

theorem eval_collect_of_error {n : Nat} {s s' : σ} {l t : List ι} {i : ι} {e : ε} (hn : l.length < n)
    (hf : l.foldlM step s = .ok s') (he : step s' i = .error e) :
    (collect step n s : Proc ε ι ω σ).eval (l ++ i :: t) = some (.error e, t) := by
  induction l generalizing n s with
  | nil => cases n with
    | zero => simp at hn
    | succ n =>
      obtain rfl := Except.ok.inj hf
      rw [List.nil_append, eval_collect_cons, he]
      rfl
  | cons j l ih =>
    cases n with
    | zero => simp at hn
    | succ n =>
      rw [List.cons_append, eval_collect_cons]
      cases hs : step s j with
      | error e => simp [List.foldlM_cons, hs, bind, Except.bind] at hf
      | ok s₁ =>
        simp only [List.foldlM_cons, hs, bind, Except.bind] at hf
        simpa using ih (by simpa using hn) hf

end Proc
