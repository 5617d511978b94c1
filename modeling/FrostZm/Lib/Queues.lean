import FrostZm.Lib.Proc
import Mathlib.Logic.Relation

/-!
# A computation between two queues

One input after the other is taken from the front of a queue, one output after the other is
put at the back of another. `eval` and `outs` say where that ends.
-/

namespace Proc

variable {ε ι ω α : Type}

/-- A computation with what it has not read yet and what it has written. -/
structure Queues (ε ι ω α : Type) where
  proc : Proc ε ι ω α
  inbox : List ι
  outbox : List ω

namespace Queues

inductive Step : Queues ε ι ω α → Queues ε ι ω α → Prop
  | write (o p inbox outbox) : Step ⟨emit o p, inbox, outbox⟩ ⟨p, inbox, outbox ++ [o]⟩
  | read (k i inbox outbox) : Step ⟨recv k, i :: inbox, outbox⟩ ⟨k i, inbox, outbox⟩

abbrev Steps : Queues ε ι ω α → Queues ε ι ω α → Prop := Relation.ReflTransGen Step

/-- It has ended, or it waits at an empty queue. -/
def Halted (c : Queues ε ι ω α) : Prop := ∀ d, ¬ Step c d

def outcome (c : Queues ε ι ω α) : Option (Except ε α) :=
  match c.proc with
  | ret a => some (.ok a)
  | fail e => some (.error e)
  | _ => none

variable {c d d' : Queues ε ι ω α}

theorem exists_halted (p : Proc ε ι ω α) (h : List ι) (out : List ω) :
    ∃ c, Steps ⟨p, h, out⟩ c ∧ Halted c ∧ c.outbox = out ++ p.outs h ∧
      (c.outcome.map fun x => (x, c.inbox)) = p.eval h ∧ (c.outcome = none → c.inbox = []) := by
  induction p generalizing h out with
  | ret a => exact ⟨_, .refl, nofun, (List.append_nil _).symm, rfl, nofun⟩
  | fail e => exact ⟨_, .refl, nofun, (List.append_nil _).symm, rfl, nofun⟩
  | emit o p ih =>
    obtain ⟨c, hsteps, hhalt, hout, hrest⟩ := ih h (out ++ [o])
    refine ⟨c, .head (.write o p h out) hsteps, hhalt, ?_, hrest⟩
    rw [hout, List.append_assoc]
    rfl
  | recv k ih =>
    cases h with
    | nil => exact ⟨_, .refl, nofun, (List.append_nil _).symm, rfl, fun _ => rfl⟩
    | cons i h =>
      obtain ⟨c, hsteps, hrest⟩ := ih i h out
      exact ⟨c, .head (.read k i h out) hsteps, hrest⟩

end Queues

end Proc
