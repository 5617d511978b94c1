import Mathlib.Tactic.Common

/-!
# Readers of byte strings

A reader takes what it reads off the front of its input. `Reads p b a` says that it reads `b`
as `a`, whatever comes behind; the rules put such facts together along the reader.
-/

/-- A reader answers with what it read and with the rest of its input. -/
abbrev Reader (α : Type) := StateT (List UInt8) Option α

namespace Reader

variable {α β ι : Type} {p : Reader α} {f : α → Reader β} {b c : List UInt8} {a : α} {d : β}

def Reads (p : Reader α) (b : List UInt8) (a : α) : Prop := ∀ rest, p (b ++ rest) = some (a, rest)

/-- So many bytes. -/
def bytes (n : Nat) : Reader (List UInt8) := fun s =>
  if s.length < n then none else some (s.take n, s.drop n)

def byte : Reader UInt8
  | [] => none
  | b :: s => some (b, s)

/-- These bytes. -/
def expect (b : List UInt8) : Reader Unit := do
  let got ← bytes b.length
  if got = b then pure () else failure

def many (p : Reader α) : Nat → Reader (List α)
  | 0 => pure []
  | n + 1 => do
    let a ← p
    let rest ← many p n
    return a :: rest

/-! ## Rules -/

theorem Reads.run (h : Reads p b a) (rest : List UInt8) : p.run (b ++ rest) = some (a, rest) :=
  h rest

theorem reads_pure : Reads (pure a) [] a := fun _ => rfl

theorem Reads.bind (h : Reads p b a) (hf : Reads (f a) c d) : Reads (p >>= f) (b ++ c) d := by
  intro rest
  have hp := h (c ++ rest)
  change (p (b ++ c ++ rest)).bind (fun r => f r.1 r.2) = some (d, rest)
  rw [List.append_assoc, hp]
  exact hf rest

theorem Reads.nil_bind (h : Reads p [] a) (hf : Reads (f a) c d) : Reads (p >>= f) c d := h.bind hf

theorem Reads.bind_nil (h : Reads p b a) (hf : Reads (f a) [] d) : Reads (p >>= f) b d := by
  have hbind := h.bind hf
  rwa [List.append_nil] at hbind

theorem Reads.bind_pure {g : α → β} (h : Reads p b a) : Reads (p >>= fun a => pure (g a)) b (g a) :=
  h.bind_nil reads_pure

theorem reads_bytes {n : Nat} (h : b.length = n) : Reads (bytes n) b b := by
  intro rest
  unfold bytes
  rw [if_neg (by rw [List.length_append]; omega), List.take_left' h, List.drop_left' h]

theorem reads_byte (b : UInt8) : Reads byte [b] b := fun _ => rfl

theorem reads_expect : Reads (expect b) b () := by
  intro rest
  have h := reads_bytes (b := b) rfl rest
  change (bytes b.length (b ++ rest)).bind _ = _
  rw [h]
  change (if b = b then pure () else failure : Reader Unit) rest = some ((), rest)
  rw [if_pos rfl]
  rfl

theorem Reads.many {write : ι → List UInt8} {value : ι → α} {l : List ι}
    (h : ∀ x ∈ l, Reads p (write x) (value x)) :
    Reads (many p l.length) (l.flatMap write) (l.map value) := by
  induction l with
  | nil => exact reads_pure
  | cons x l ih =>
    rw [List.forall_mem_cons] at h
    rw [List.flatMap_cons, List.map_cons]
    exact h.1.bind (ih h.2).bind_pure

/-! ## What a reader took -/

theorem bind_eq_some {s rest : List UInt8} : (p >>= f) s = some (d, rest) ↔
    ∃ a s', p s = some (a, s') ∧ f a s' = some (d, rest) := by
  change (p s).bind (fun r => f r.1 r.2) = some (d, rest) ↔ _
  rw [Option.bind_eq_some_iff]
  exact Prod.exists

theorem bytes_eq_some {n : Nat} {s rest : List UInt8} :
    bytes n s = some (b, rest) ↔ b.length = n ∧ s = b ++ rest := by
  constructor
  · intro h
    unfold bytes at h
    split at h
    · cases h
    · next hlen =>
      obtain ⟨rfl, rfl⟩ := Prod.mk.inj (Option.some.inj h)
      exact ⟨List.length_take_of_le (by omega), (List.take_append_drop n s).symm⟩
  · rintro ⟨hlen, rfl⟩
    exact reads_bytes hlen rest

end Reader
