import Mathlib.Tactic.Common

/-!
# Lists of entries with keys

The first entry with a key is the one that counts. Setting a key changes that entry, or appends one
if there is none.
-/

namespace Entries

variable {α κ β : Type} [DecidableEq κ] {key : α → κ} {val : α → β} {change : α → α} {new : α}
  {k k' : κ} {b : β} {l : List α}

/-- The value of the first entry with a key. -/
def valueAt (key : α → κ) (val : α → β) (l : List α) (k : κ) : Option β :=
  (l.find? fun a => key a = k).map val

/-- Changes the first entry with a key, or appends a new one. -/
def setFirst (key : α → κ) (change : α → α) (new : α) (k : κ) : List α → List α
  | [] => [new]
  | a :: l => if key a = k then change a :: l else a :: setFirst key change new k l

theorem valueAt_cons (a : α) :
    valueAt key val (a :: l) k = if key a = k then some (val a) else valueAt key val l k := by
  unfold valueAt
  by_cases h : key a = k
  · simp [h]
  · simp [h]

theorem valueAt_setFirst (hkey : ∀ a, key (change a) = key a) (hval : ∀ a, val (change a) = b)
    (hnew : key new = k) (hb : val new = b) :
    valueAt key val (setFirst key change new k l) k' =
      if k' = k then some b else valueAt key val l k' := by
  induction l with
  | nil =>
    rw [setFirst, valueAt_cons, hnew, hb]
    simp only [eq_comm]
  | cons a l ih =>
    rw [setFirst]
    by_cases ha : key a = k
    · rw [if_pos ha, valueAt_cons, valueAt_cons, hkey, hval, ha]
      by_cases hk : k' = k
      · rw [if_pos hk.symm, if_pos hk]
      · rw [if_neg (Ne.symm hk), if_neg hk, if_neg (Ne.symm hk)]
    · rw [if_neg ha, valueAt_cons, valueAt_cons, ih]
      by_cases hk : k' = k
      · rw [if_pos hk, if_neg (hk ▸ ha), if_pos hk]
      · rw [if_neg hk, if_neg hk]

end Entries
