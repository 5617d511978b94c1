import Mathlib.Tactic.Common

/-!
# Readers at a position

A reader is given the whole input and where to start, and answers with what it read and where
it stopped. `Exact` says what it accepts: what the writer writes, at that place, and nothing else.
-/

/-- A reader answers with what it read and with the position behind it. -/
abbrev PosReader (ε α : Type) := List UInt8 → Nat → Except ε (α × Nat)

namespace PosReader

variable {ε α β γ : Type} {data a b : List UInt8} {pos : Nat}

/-! ## What stands at a position -/

def Holds (data : List UInt8) (pos : Nat) (b : List UInt8) : Prop := b <+: data.drop pos

theorem holds_zero : Holds data 0 b ↔ b <+: data := by
  rw [Holds, List.drop_zero]

theorem holds_nil : Holds data pos [] := List.nil_prefix

theorem Holds.le_length (h : Holds data pos b) (hpos : pos ≤ data.length) :
    pos + b.length ≤ data.length := by
  have hle := h.length_le
  rw [List.length_drop] at hle
  omega

theorem holds_append : Holds data pos (a ++ b) ↔ Holds data pos a ∧ Holds data (pos + a.length) b := by
  unfold Holds
  rw [← List.drop_drop]
  constructor
  · rintro ⟨suf, hsuf⟩
    rw [← hsuf, List.append_assoc, List.drop_left]
    exact ⟨List.prefix_append _ _, List.prefix_append _ _⟩
  · rintro ⟨⟨suf, hsuf⟩, hb⟩
    rw [← hsuf, List.drop_left] at hb
    rw [← hsuf]
    exact (List.prefix_append_right_inj a).mpr hb

theorem Holds.bytes_le (h : Holds data pos b) (hne : b ≠ []) : pos + b.length ≤ data.length := by
  have hle := h.length_le
  rw [List.length_drop] at hle
  have hpos := List.length_pos_iff.mpr hne
  omega

/-! ## What a reader makes of what stands at its position -/

/-- Where `b` stands the reader gives `a`, and stops behind it. -/
def ReadsAt (read : PosReader ε α) (b : List UInt8) (x : α) : Prop :=
  ∀ data pos, Holds data pos b → read data pos = .ok (x, pos + b.length)

/-- So many, one behind the other. -/
def manyAt (read : PosReader ε α) : Nat → PosReader ε (List α)
  | 0 => fun _ pos => return ([], pos)
  | n + 1 => fun data pos => do
    let (x, pos) ← read data pos
    let (rest, pos) ← manyAt read n data pos
    return (x :: rest, pos)

theorem ReadsAt.many {read : PosReader ε α} {ι : Type} {write : ι → List UInt8} {value : ι → α}
    {l : List ι} (h : ∀ x ∈ l, ReadsAt read (write x) (value x)) :
    ReadsAt (manyAt read l.length) (l.flatMap write) (l.map value) := by
  induction l with
  | nil => exact fun _ _ _ => rfl
  | cons x l ih =>
    rw [List.forall_mem_cons] at h
    intro data pos hholds
    rw [List.flatMap_cons, holds_append] at hholds
    have hfirst := h.1 data pos hholds.1
    have hrest := ih h.2 data _ hholds.2
    simp only [List.length_cons, manyAt, hfirst, hrest, Bind.bind, Except.bind, List.map_cons,
      List.flatMap_cons, List.length_append, Nat.add_assoc]
    rfl

/-! ## What a run accepts -/

/-- The run gives `y` if and only if one of the encodings of `y` stands at `pos`. -/
def Accepts (data : List UInt8) (pos : Nat) (run : Except ε γ) (Encodes : γ → List UInt8 → Prop) : Prop :=
  pos ≤ data.length → ∀ y, run = .ok y ↔ ∃ b, Encodes y b ∧ Holds data pos b

/-- The reader accepts what `write` writes of the values that fit, and stops behind it. -/
def Exact (read : PosReader ε α) (write : α → List UInt8) (Fits : α → Prop) : Prop :=
  ∀ data pos, Accepts data pos (read data pos) fun y b =>
    (Fits y.1 ∧ b = write y.1) ∧ y.2 = pos + b.length

variable {read : PosReader ε α} {write : α → List UInt8} {Fits : α → Prop}
  {run : Except ε γ} {Encodes Encodes' : γ → List UInt8 → Prop}

theorem Accepts.congr (h : Accepts data pos run Encodes) (hiff : ∀ y b, Encodes y b ↔ Encodes' y b) :
    Accepts data pos run Encodes' := by
  intro hpos y
  rw [h hpos y]
  simp only [hiff]

theorem accepts_pure (x : γ) :
    Accepts data pos (pure x : Except ε γ) fun y b => y = x ∧ b = [] := by
  intro _ y
  constructor
  · intro h
    exact ⟨[], ⟨(Except.ok.inj h).symm, rfl⟩, holds_nil⟩
  · rintro ⟨b, ⟨rfl, -⟩, -⟩
    rfl

theorem Accepts.eq_ok_iff {write : γ → List UInt8} {Fits : γ → Prop}
    (h : Accepts data 0 run fun y b => Fits y ∧ b = write y) {y : γ} :
    run = .ok y ↔ Fits y ∧ write y <+: data := by
  rw [h (Nat.zero_le _) y]
  simp only [holds_zero, and_assoc, exists_and_left, exists_eq_left]

theorem Accepts.next_le {first : Except ε (α × Nat)}
    (h : Accepts data pos first fun y b => (Fits y.1 ∧ b = write y.1) ∧ y.2 = pos + b.length)
    (hpos : pos ≤ data.length) {y : α × Nat} (hy : first = .ok y) : y.2 ≤ data.length := by
  obtain ⟨_, ⟨⟨-, rfl⟩, hnext⟩, hholds⟩ := (h hpos y).mp hy
  rw [hnext]
  exact hholds.le_length hpos

theorem Accepts.forall_ok_iff {first : Except ε (α × Nat)}
    (h : Accepts data pos first fun y b => (Fits y.1 ∧ b = write y.1) ∧ y.2 = pos + b.length)
    (hpos : pos ≤ data.length) {P : α × Nat → Prop} :
    (∀ y, first = .ok y → P y) ↔
      ∀ x, Fits x → Holds data pos (write x) → P (x, pos + (write x).length) := by
  constructor
  · intro hall x hfits hholds
    exact hall _ ((h hpos _).mpr ⟨_, ⟨⟨hfits, rfl⟩, rfl⟩, hholds⟩)
  · rintro hall ⟨x, next⟩ hy
    obtain ⟨_, ⟨⟨hfits, rfl⟩, hnext⟩, hholds⟩ := (h hpos _).mp hy
    obtain rfl : next = pos + (write x).length := hnext
    exact hall x hfits hholds

theorem Exact.next_le (h : Exact read write Fits) (hpos : pos ≤ data.length) {y : α × Nat}
    (hy : read data pos = .ok y) : y.2 ≤ data.length :=
  (h data pos).next_le hpos hy

theorem Exact.forall_ok_iff (h : Exact read write Fits) (hpos : pos ≤ data.length)
    {P : α × Nat → Prop} : (∀ y, read data pos = .ok y → P y) ↔
      ∀ x, Fits x → Holds data pos (write x) → P (x, pos + (write x).length) :=
  (h data pos).forall_ok_iff hpos

theorem Accepts.guard (h : Accepts data pos run Encodes) {check : Except ε Unit}
    (hcheck : ∀ y b, Encodes y b → Holds data pos b → check = .ok ()) :
    Accepts data pos (check >>= fun _ => run) Encodes := by
  intro hpos y
  rw [← h hpos y]
  constructor
  · intro hrun
    cases check with
    | error e => nomatch hrun
    | ok u => exact hrun
  · intro hrun
    obtain ⟨b, henc, hb⟩ := (h hpos y).mp hrun
    rw [hcheck y b henc hb]
    exact hrun

theorem Accepts.bind {first : Except ε (α × Nat)}
    (h : Accepts data pos first fun y b => (Fits y.1 ∧ b = write y.1) ∧ y.2 = pos + b.length)
    {k : α × Nat → Except ε γ} {Encodes : α → γ → List UInt8 → Prop}
    (hk : ∀ x, Fits x →
      Accepts data (pos + (write x).length) (k (x, pos + (write x).length)) (Encodes x)) :
    Accepts data pos (first >>= k) fun y b => ∃ x b', Fits x ∧ Encodes x y b' ∧ b = write x ++ b' := by
  intro hpos y
  constructor
  · intro hrun
    cases hfirst : first with
    | error e =>
      rw [hfirst] at hrun
      nomatch hrun
    | ok r =>
      obtain ⟨x, next⟩ := r
      obtain ⟨_, ⟨⟨hfits, rfl⟩, hnext⟩, hx⟩ := (h hpos (x, next)).mp hfirst
      simp only at hfits hnext hx
      subst hnext
      rw [hfirst] at hrun
      obtain ⟨b', henc, hb'⟩ := (hk x hfits (hx.le_length hpos) y).mp hrun
      exact ⟨write x ++ b', ⟨x, b', hfits, henc, rfl⟩, holds_append.mpr ⟨hx, hb'⟩⟩
  · rintro ⟨b, ⟨x, b', hfits, henc, rfl⟩, hb⟩
    obtain ⟨hx, hb'⟩ := holds_append.mp hb
    rw [(h hpos (x, _)).mpr ⟨write x, ⟨⟨hfits, rfl⟩, rfl⟩, hx⟩]
    exact (hk x hfits (hx.le_length hpos) y).mpr ⟨b', henc, hb'⟩

theorem Exact.bind (h : Exact read write Fits) {k : α × Nat → Except ε γ}
    {Encodes : α → γ → List UInt8 → Prop}
    (hk : ∀ x, Fits x →
      Accepts data (pos + (write x).length) (k (x, pos + (write x).length)) (Encodes x)) :
    Accepts data pos (read data pos >>= k) fun y b =>
      ∃ x b', Fits x ∧ Encodes x y b' ∧ b = write x ++ b' :=
  (h data pos).bind hk

theorem Exact.many (h : Exact read write Fits) {loop : List UInt8 → Nat → Nat → Except ε (List α × Nat)}
    (hzero : ∀ data pos, loop data 0 pos = pure ([], pos))
    (hsucc : ∀ data n pos, loop data (n + 1) pos = (do
      let (x, pos) ← read data pos
      let (xs, pos) ← loop data n pos
      return (x :: xs, pos))) (n : Nat) :
    Exact (fun data pos => loop data n pos) (List.flatMap write) fun xs =>
      xs.length = n ∧ ∀ x ∈ xs, Fits x := by
  induction n with
  | zero =>
    intro data pos
    simp only [hzero]
    refine (accepts_pure _).congr fun y b => ?_
    constructor
    · rintro ⟨rfl, rfl⟩
      exact ⟨⟨⟨rfl, by simp⟩, rfl⟩, rfl⟩
    · obtain ⟨xs, next⟩ := y
      rintro ⟨⟨⟨hlen, -⟩, rfl⟩, hnext⟩
      obtain rfl := List.length_eq_zero_iff.mp hlen
      exact ⟨Prod.ext rfl hnext, rfl⟩
  | succ n ih =>
    intro data pos
    simp only [hsucc]
    apply Accepts.congr
    · apply h.bind
      intro x _
      apply ih.bind
      intro xs _
      apply accepts_pure
    · rintro ⟨ys, next⟩ b
      constructor
      · rintro ⟨x, _, hfits, ⟨xs, _, ⟨hlen, hall⟩, ⟨hy, rfl⟩, rfl⟩, rfl⟩
        obtain ⟨rfl, rfl⟩ := Prod.mk.inj hy
        refine ⟨⟨⟨congrArg (· + 1) hlen, List.forall_mem_cons.mpr ⟨hfits, hall⟩⟩, ?_⟩, ?_⟩
        · rw [List.append_nil, List.flatMap_cons]
        · simp only [List.length_append, List.append_nil, Nat.add_assoc]
      · rintro ⟨⟨⟨hlen, hall⟩, rfl⟩, hnext⟩
        cases ys with
        | nil => nomatch hlen
        | cons x xs =>
          obtain ⟨hfits, hall⟩ := List.forall_mem_cons.mp hall
          refine ⟨x, xs.flatMap write, hfits, ⟨xs, [], ⟨Nat.succ.inj hlen, hall⟩, ⟨?_, rfl⟩, ?_⟩, rfl⟩
          · refine Prod.ext rfl (hnext.trans ?_)
            simp only [List.flatMap_cons, List.length_append, Nat.add_assoc]
          · rw [List.append_nil]

end PosReader
