import Mathlib.Data.List.Basic

/-!
# Programs that post

A program reads what it is sent, posts messages, and returns or stops. When several of them run
side by side, each is sent what the others post. If a message depends on messages of earlier stages
only, all messages are right once each program posts the right ones in answer to right ones.
-/

namespace Posting

/-- A program, with the state that it leaves behind. -/
abbrev Program (σ ε α : Type) := σ → Except ε α × σ

/-- One program after the other, unless the first one stops. -/
def Program.andThen {σ ε α β : Type} (x : Program σ ε α) (f : α → Program σ ε β) : Program σ ε β :=
  fun st =>
    match x st with
    | (.ok a, st) => f a st
    | (.error e, st) => (.error e, st)

/-- What a program keeps wherever it stops, which messages it posts and for which reasons it
stops. -/
structure Contract (σ ε π : Type) where
  posts : σ → List π
  keeps : σ → Prop
  emits : π → Prop
  stops : ε → Prop

variable {σ ε π α β : Type} {c : Contract σ ε π} {x : Program σ ε α} {f : α → Program σ ε β}
  {r r' : α → Prop} {q : β → Prop} {pre mid post post' : σ → Prop}

/-- What the program adds to the posts of the state that it started from. -/
structure Contract.Moves (c : Contract σ ε π) (st st' : σ) : Prop where
  keeps : c.keeps st'
  posts : ∃ more, c.posts st' = c.posts st ++ more ∧ ∀ p ∈ more, c.emits p

theorem Contract.Moves.refl {st : σ} (h : c.keeps st) : c.Moves st st :=
  ⟨h, [], (List.append_nil _).symm, fun _ hp => absurd hp List.not_mem_nil⟩

theorem Contract.Moves.trans {st st' st'' : σ} (h : c.Moves st st') (h' : c.Moves st' st'') :
    c.Moves st st'' := by
  obtain ⟨-, more, heq, hmore⟩ := h
  obtain ⟨hkeeps, more', heq', hmore'⟩ := h'
  refine ⟨hkeeps, more ++ more', ?_, ?_⟩
  · rw [heq', heq, List.append_assoc]
  · intro p hp
    rcases List.mem_append.mp hp with hp | hp
    · exact hmore p hp
    · exact hmore' p hp

/-- A result as the contract wants it, with `r` of the value and `post` of the state that comes
with a value. -/
structure Contract.Allows (c : Contract σ ε π) (post : σ → Prop) (r : α → Prop) (st : σ)
    (out : Except ε α × σ) : Prop where
  moves : c.Moves st out.2
  returns : ∀ a, out.1 = .ok a → r a
  leaves : ∀ a, out.1 = .ok a → post out.2
  stops : ∀ e, out.1 = .error e → c.stops e

/-- From any state that is kept and has `pre` the program does what the contract allows. -/
def Contract.Meets (c : Contract σ ε π) (pre : σ → Prop) (x : Program σ ε α) (post : σ → Prop)
    (r : α → Prop) : Prop :=
  ∀ st, c.keeps st → pre st → c.Allows post r st (x st)

namespace Contract

theorem meets_pure {a : α} (h : r a) : c.Meets pre (fun st => (.ok a, st)) pre r := by
  intro st hst hpre
  refine ⟨.refl hst, ?_, fun _ _ => hpre, by simp⟩
  intro b hb
  exact Except.ok.inj hb ▸ h

theorem meets_stop {e : ε} (h : c.stops e) : c.Meets pre (fun st => (.error e, st)) post r := by
  intro st hst _
  refine ⟨.refl hst, by simp, by simp, ?_⟩
  intro e' he
  exact Except.error.inj he ▸ h

theorem Meets.mono (h : c.Meets pre x post r) (himp : ∀ a, r a → r' a) : c.Meets pre x post r' := by
  intro st hst hpre
  obtain ⟨hmoves, hreturns, hleaves, hstops⟩ := h st hst hpre
  exact ⟨hmoves, fun a ha => himp a (hreturns a ha), hleaves, hstops⟩

theorem Meets.weaken (h : c.Meets pre x post r) (himp : ∀ st, post st → post' st) :
    c.Meets pre x post' r := by
  intro st hst hpre
  obtain ⟨hmoves, hreturns, hleaves, hstops⟩ := h st hst hpre
  exact ⟨hmoves, hreturns, fun a ha => himp _ (hleaves a ha), hstops⟩

theorem Meets.bind (hx : c.Meets pre x mid r) (hf : ∀ a, r a → c.Meets mid (f a) post q) :
    c.Meets pre (x.andThen f) post q := by
  intro st hst hpre
  have h := hx st hst hpre
  unfold Program.andThen
  revert h
  rcases x st with ⟨e | a, st'⟩
  · rintro ⟨hmoves, -, -, hstops⟩
    exact ⟨hmoves, by simp, by simp,
      fun e' he => hstops e' (congrArg Except.error (Except.error.inj he))⟩
  · rintro ⟨hmoves, hreturns, hleaves, -⟩
    obtain ⟨hmoves', hreturns', hleaves', hstops'⟩ :=
      hf a (hreturns a rfl) st' hmoves.keeps (hleaves a rfl)
    exact ⟨hmoves.trans hmoves', hreturns', hleaves', hstops'⟩

end Contract

/-! ## Stages -/

variable {ι : Type} {posted : ι → List π} {right : ι → π → Prop}

/-- If the messages up to each stage are right as soon as the earlier ones are, all are right. -/
theorem right_of_stages (stage : π → ℕ)
    (h : ∀ k, (∀ i, ∀ p ∈ posted i, stage p < k → right i p) →
      ∀ i, ∀ p ∈ posted i, stage p ≤ k → right i p) :
    ∀ i, ∀ p ∈ posted i, right i p := by
  have hbelow : ∀ k i, ∀ p ∈ posted i, stage p < k → right i p := by
    intro k
    induction k with
    | zero => exact fun i p _ hlt => absurd hlt (Nat.not_lt_zero _)
    | succ k ih => exact fun i p hp hlt => h k ih i p hp (Nat.le_of_lt_succ hlt)
  exact fun i p hp => hbelow (stage p + 1) i p hp (Nat.lt_succ_self _)

end Posting
