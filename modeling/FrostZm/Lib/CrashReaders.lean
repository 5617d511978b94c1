import FrostZm.Lib.Crashes

/-!
# Readers that can crash

A reader takes what it reads off the front of its input. Next to the rules for what it reads there
are those for readers that never crash, and for two readers that end alike: both with the same
value, or both with an error.
-/

namespace Crashes

abbrev CrashReader (ε α : Type) := StateT (List UInt8) (Run ε) α

/-- Both runs have the same value, or both have errors. -/
inductive Alike {ε ε' α : Type} : Run ε α → Run ε' α → Prop where
  | ok (a : α) : Alike (.ok a) (.ok a)
  | error (e : ε) (e' : ε') : Alike (.error (.error e)) (.error (.error e'))

/-- A run with an error, and not with a crash. -/
def Refused {ε α : Type} (x : Run ε α) : Prop := ∃ e, x = .error (.error e)

namespace CrashReader

variable {ε ε' α β ι : Type} {p : CrashReader ε α} {q : CrashReader ε' α}
  {k : α → CrashReader ε β} {k' : α → CrashReader ε' β} {b c s rest : List UInt8} {a : α} {d : β}

def stop (x : Stop ε) : CrashReader ε α := fun _ => .error x

/-- `ok_or`. -/
def okOr (e : ε) : Option α → CrashReader ε α
  | some a => pure a
  | none => stop (.error e)

/-- `read_exact`, with the error at the end of the input. -/
def readExact (eof : ε) (n : Nat) : CrashReader ε (List UInt8) := fun s =>
  if s.length < n then .error (.error eof) else .ok (s.take n, s.drop n)

def readU8 (eof : ε) : CrashReader ε UInt8
  | [] => .error (.error eof)
  | b :: s => .ok (b, s)

def many (p : CrashReader ε α) : Nat → CrashReader ε (List α)
  | 0 => pure []
  | n + 1 => do
    let a ← p
    let rest ← many p n
    return a :: rest

/-- `map_err`. -/
def mapErr (f : ε → ε') (p : CrashReader ε α) : CrashReader ε' α := fun s =>
  match p s with
  | .ok r => .ok r
  | .error (.error e) => .error (.error (f e))
  | .error (.crash c) => .error (.crash c)

/-- What is read, without the rest of the input. -/
def valueOf (p : CrashReader ε α) (s : List UInt8) : Run ε α := Prod.fst <$> p s

/-- The end of a reading: the rest of the input does not matter. -/
def ended (a : α) : CrashReader ε α := fun _ => .ok (a, [])

/-! ## Sequences -/

theorem bind_apply : (p >>= k) s = (p s >>= fun r => k r.1 r.2) := rfl

theorem bind_of_ok (h : p s = .ok (a, rest)) : (p >>= k) s = k a rest := by
  rw [bind_apply, h]
  rfl

theorem bind_of_error {x : Stop ε} (h : p s = .error x) : (p >>= k) s = .error x := by
  rw [bind_apply, h]
  rfl

theorem mapErr_bind (f : ε → ε') :
    mapErr f (p >>= k) = mapErr f p >>= fun a => mapErr f (k a) := by
  funext s
  unfold mapErr
  rw [bind_apply, bind_apply]
  rcases p s with (e | c) | ⟨a, rest⟩
  · rfl
  · rfl
  · rfl

theorem mapErr_pure (f : ε → ε') (a : α) : mapErr f (pure a : CrashReader ε α) = pure a := rfl

theorem mapErr_id (p : CrashReader ε α) : mapErr id p = p := by
  funext s
  unfold mapErr
  rcases p s with (e | c) | r
  · rfl
  · rfl
  · rfl

theorem many_mapErr (f : ε → ε') (p : CrashReader ε α) (n : Nat) :
    many (mapErr f p) n = mapErr f (many p n) := by
  induction n with
  | zero => rfl
  | succ n ih =>
    unfold many
    rw [ih, mapErr_bind]
    simp only [mapErr_bind, mapErr_pure]

/-! ## What is read -/

def Reads (p : CrashReader ε α) (b : List UInt8) (a : α) : Prop :=
  ∀ rest, p (b ++ rest) = .ok (a, rest)

theorem reads_pure : Reads (pure a : CrashReader ε α) [] a := fun _ => rfl

theorem Reads.bind (h : Reads p b a) (hk : Reads (k a) c d) : Reads (p >>= k) (b ++ c) d := by
  intro rest
  rw [List.append_assoc, bind_of_ok (h (c ++ rest))]
  exact hk rest

theorem Reads.nil_bind (h : Reads p [] a) (hk : Reads (k a) c d) : Reads (p >>= k) c d := h.bind hk

theorem Reads.bind_nil (h : Reads p b a) (hk : Reads (k a) [] d) : Reads (p >>= k) b d := by
  have hbind := h.bind hk
  rwa [List.append_nil] at hbind

theorem Reads.mapErr (h : Reads p b a) (f : ε → ε') : Reads (mapErr f p) b a := by
  intro rest
  unfold CrashReader.mapErr
  rw [h rest]

theorem reads_readExact (eof : ε) {n : Nat} (h : b.length = n) : Reads (readExact eof n) b b := by
  intro rest
  unfold readExact
  rw [if_neg (by rw [List.length_append]; omega), List.take_left' h, List.drop_left' h]

theorem reads_readU8 (eof : ε) (x : UInt8) : Reads (readU8 eof) [x] x := fun _ => rfl

theorem Reads.many {write : α → List UInt8} {l : List α} (h : ∀ x ∈ l, Reads p (write x) x) :
    Reads (many p l.length) (l.flatMap write) l := by
  induction l with
  | nil => exact reads_pure
  | cons x l ih =>
    rw [List.forall_mem_cons] at h
    rw [List.flatMap_cons]
    exact h.1.bind ((ih h.2).bind_nil reads_pure)

theorem Reads.valueOf (h : Reads p b a) : valueOf p b = .ok a := by
  have hrest := h []
  rw [List.append_nil] at hrest
  unfold CrashReader.valueOf
  rw [hrest]
  rfl

/-! ## Readers that never crash -/

def Calm (p : CrashReader ε α) : Prop := ∀ s c, p s ≠ .error (.crash c)

theorem calm_pure (a : α) : Calm (pure a : CrashReader ε α) := fun _ _ h => nomatch h

theorem calm_stop (e : ε) : Calm (stop (.error e) : CrashReader ε α) := fun _ _ h => nomatch h

theorem calm_readExact (eof : ε) (n : Nat) : Calm (readExact eof n) := by
  intro s c h
  unfold readExact at h
  split at h
  · nomatch h
  · nomatch h

theorem calm_readU8 (eof : ε) : Calm (readU8 eof) := by
  intro s c h
  cases s with
  | nil => nomatch h
  | cons b s => nomatch h

theorem Calm.bind (h : Calm p) (hk : ∀ a, Calm (k a)) : Calm (p >>= k) := by
  intro s c hc
  cases hp : p s with
  | error x =>
    rw [bind_of_error hp] at hc
    obtain rfl := Except.error.inj hc
    exact h s c hp
  | ok r =>
    rw [bind_of_ok hp] at hc
    exact hk r.1 r.2 c hc

theorem Calm.mapErr (h : Calm p) (f : ε → ε') : Calm (mapErr f p) := by
  intro s c hc
  unfold CrashReader.mapErr at hc
  split at hc
  · nomatch hc
  · nomatch hc
  · next hp => exact h s _ hp

theorem Calm.many (h : Calm p) (n : Nat) : Calm (many p n) := by
  induction n with
  | zero => exact calm_pure []
  | succ n ih => exact h.bind fun a => ih.bind fun l => calm_pure (a :: l)

/-! ## Readers that end alike -/

theorem alike_error_iff (e : ε) {y : Run ε' α} : Alike (.error (.error e)) y ↔ Refused y := by
  constructor
  · rintro ⟨⟩
    exact ⟨_, rfl⟩
  · rintro ⟨e', rfl⟩
    exact .error e e'

theorem Calm.alike_mapErr {ε'' : Type} (h : Calm p) (f : ε → ε') (g : ε → ε'') (s : List UInt8) :
    Alike (CrashReader.mapErr f p s) (CrashReader.mapErr g p s) := by
  unfold CrashReader.mapErr
  rcases hp : p s with (e | c) | r
  · exact .error _ _
  · exact absurd hp (h s c)
  · exact .ok r

theorem alike_valueOf_iff {q : CrashReader ε' α} :
    Alike (valueOf p s) (valueOf q s) ↔ Alike ((p >>= ended) s) ((q >>= ended) s) := by
  unfold valueOf
  rw [bind_apply, bind_apply]
  rcases p s with (e | c) | ⟨a, rest⟩
  · rcases q s with (e' | c') | ⟨a', rest'⟩
    · exact iff_of_true (.error e e') (.error e e')
    · exact iff_of_false nofun nofun
    · exact iff_of_false nofun nofun
  · exact iff_of_false nofun nofun
  · rcases q s with (e' | c') | ⟨a', rest'⟩
    · exact iff_of_false nofun nofun
    · exact iff_of_false nofun nofun
    · constructor
      · rintro ⟨⟩
        exact .ok _
      · rintro ⟨⟩
        exact .ok _

theorem mapErr_eq_ok {f : ε → ε'} : mapErr f p s = .ok (a, rest) ↔ p s = .ok (a, rest) := by
  unfold mapErr
  rcases p s with (e | c) | r
  · exact iff_of_false nofun nofun
  · exact iff_of_false nofun nofun
  · simp only [Except.ok.injEq]

theorem alike_bind_iff (h : Alike (p s) (q s)) : Alike ((p >>= k) s) ((q >>= k') s) ↔
    ∀ a rest, p s = .ok (a, rest) → Alike (k a rest) (k' a rest) := by
  rw [bind_apply, bind_apply]
  generalize p s = x at h ⊢
  generalize q s = y at h ⊢
  cases h with
  | ok r =>
    constructor
    · intro h a rest hr
      obtain rfl := Except.ok.inj hr
      exact h
    · exact fun h => h r.1 r.2 rfl
  | error e e' => exact iff_of_true (.error e e') fun _ _ h => nomatch h

theorem refused_bind_iff (h : Calm p) : Refused ((p >>= k) s) ↔
    ∀ a rest, p s = .ok (a, rest) → Refused (k a rest) := by
  rcases hp : p s with (e | c) | r
  · rw [bind_of_error hp]
    exact iff_of_true ⟨e, rfl⟩ fun _ _ h => nomatch h
  · exact absurd hp (h s c)
  · rw [bind_of_ok hp]
    constructor
    · intro hr a rest ha
      obtain rfl := Except.ok.inj ha
      exact hr
    · exact fun hr => hr r.1 r.2 rfl

end CrashReader

end Crashes
