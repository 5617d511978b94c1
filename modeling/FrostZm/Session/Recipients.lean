import FrostZm.Session.Relay

/-!
# To whom a session writes

A session of a party never addresses a frame to this party, as long as no frame that it reads
claims to come from it. Each of its frames has a recipient.
-/

open FrostChannel

variable {α β σ : Type}

theorem Proc.eval_suffix {ε ι ω : Type} {p : Proc ε ι ω α} {h r : List ι} {x : Except ε α}
    (he : p.eval h = some (x, r)) : r <:+ h := by
  induction p generalizing h with
  | ret a => exact (Prod.mk.inj (Option.some.inj he)).2 ▸ List.suffix_rfl
  | fail e => exact (Prod.mk.inj (Option.some.inj he)).2 ▸ List.suffix_rfl
  | emit o p ih => exact ih he
  | recv k ih =>
    cases h with
    | nil => nomatch he
    | cons i h => exact (ih i he).trans (List.suffix_cons i h)

def Ceremony.Spares (p : UInt16) (session : Ceremony α) : Prop :=
  ∀ log : List (UInt16 × Bytes), (∀ m ∈ log, m.1 ≠ p) →
    ∀ msg ∈ session.outs (log.map frame), readRecipient msg ≠ p

namespace Ceremony

variable {p r : UInt16} {session : Ceremony α} {f : α → Ceremony β}

theorem spares_of_outs (h : ∀ t, session.outs t = []) : Spares p session := by
  intro log _ msg hmsg
  rw [h] at hmsg
  nomatch hmsg

theorem spares_lift (x : Result α) : Spares p (Proc.lift x) := spares_of_outs (Proc.outs_lift x)

theorem spares_recvEach (n : Nat) (s : σ) (step : σ → UInt16 × Bytes → Result σ) :
    Spares p (recvEach n s step) :=
  spares_of_outs (Proc.outs_collect n s)

theorem spares_sendTo (h : r ≠ p) (data : Bytes) : Spares p (sendTo r data) := by
  intro log _ msg hmsg
  obtain rfl := List.mem_singleton.mp hmsg
  rw [readRecipient_append]
  exact h

theorem spares_broadcast (h : p ≠ 0) (data : Bytes) : Spares p (broadcast data) :=
  spares_sendTo h.symm data

theorem Spares.bind (hx : Spares p session)
    (hf : ∀ (log : List (UInt16 × Bytes)) a rest, (∀ m ∈ log, m.1 ≠ p) →
      session.eval (log.map frame) = some (.ok a, rest) → Spares p (f a)) :
    Spares p (session >>= f) := by
  intro log hlog msg hmsg
  rw [Proc.outs_bind, List.mem_append] at hmsg
  rcases hmsg with hmsg | hmsg
  · exact hx log hlog msg hmsg
  · split at hmsg
    · next a rest he =>
      obtain ⟨before, hsplit⟩ := Proc.eval_suffix he
      obtain ⟨l, log', rfl, -, rfl⟩ := List.map_eq_append_iff.mp hsplit.symm
      have hlater : ∀ m ∈ log', m.1 ≠ p := fun m hm => hlog m (List.mem_append_right l hm)
      exact hf (l ++ log') a _ hlog he log' hlater msg hmsg
    · nomatch hmsg

theorem Spares.lift_bind {x : Result α} (hf : ∀ a, x = .ok a → Spares p (f a)) :
    Spares p (Proc.lift x >>= f) := by
  refine (spares_lift x).bind fun log a rest _ he => hf a ?_
  rw [Proc.eval_lift] at he
  exact (Prod.mk.inj (Option.some.inj he)).1

/-! ## Frames with a recipient -/

/-- Each frame begins with its recipient. -/
def Framed (session : Ceremony α) : Prop := ∀ fed, ∀ msg ∈ session.outs fed, 2 ≤ msg.length

theorem framed_of_outs (h : ∀ t, session.outs t = []) : Framed session := by
  intro fed msg hmsg
  rw [h] at hmsg
  nomatch hmsg

theorem framed_lift (x : Result α) : Framed (Proc.lift x) := framed_of_outs (Proc.outs_lift x)

theorem framed_recvEach (n : Nat) (s : σ) (step : σ → UInt16 × Bytes → Result σ) :
    Framed (recvEach n s step) :=
  framed_of_outs (Proc.outs_collect n s)

theorem framed_sendTo (r : UInt16) (data : Bytes) : Framed (sendTo r data) := by
  intro fed msg hmsg
  obtain rfl := List.mem_singleton.mp hmsg
  exact Nat.not_lt.mp (length_addressed r data)

theorem Framed.bind (hx : Framed session) (hf : ∀ a, Framed (f a)) : Framed (session >>= f) := by
  intro fed msg hmsg
  rw [Proc.outs_bind, List.mem_append] at hmsg
  rcases hmsg with hmsg | hmsg
  · exact hx fed msg hmsg
  · split at hmsg
    · next a rest _ => exact hf a rest msg hmsg
    · nomatch hmsg

end Ceremony
