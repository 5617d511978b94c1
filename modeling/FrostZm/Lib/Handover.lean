import FrostZm.Lib.Runs

/-!
# What is handed out and what is returned

A machine hands out a content on some steps and returns a product on others. A watcher keeps
the last content that was handed out, and whether anything was added since. The rules lift what
one step does to the products of whole runs.
-/

/-- A machine with total steps, and what each step adds, hands out and returns. -/
structure Machine (σ α C T : Type) where
  step : σ → α → σ
  adds : σ → α → Bool
  handsOut : σ → α → Option C
  returns : σ → α → Option T

/-- A state with what the watcher saw. -/
structure Watched (σ C : Type) where
  state : σ
  handed : Option C
  added : Bool

namespace Machine

variable {σ α C T : Type} (m : Machine σ α C T)

def watch (w : Watched σ C) (a : α) : Watched σ C where
  state := m.step w.state a
  handed := (m.handsOut w.state a).or w.handed
  added := (m.handsOut w.state a).isNone && (m.adds w.state a || w.added)

/-- Before the run nothing was handed out. -/
def start (s : σ) : Watched σ C := ⟨s, none, false⟩

/-- Every product that a run returns goes with the content that was handed out last. -/
def Faithful (ok : C → T → Prop) (s : σ) (acts : List α) : Prop :=
  Runs.Guarded (fun w a => some (m.watch w a))
    (fun w a => ∀ t, m.returns w.state a = some t → ∃ c, w.handed = some c ∧ ok c t) (start s) acts

/-- Wherever a run returns a product, nothing was added since the last content was handed out. -/
def Undisturbed (s : σ) (acts : List α) : Prop :=
  Runs.Guarded (fun w a => some (m.watch w a))
    (fun w a => ∀ t, m.returns w.state a = some t → w.added = false) (start s) acts

variable {m} {ok : C → T → Prop} {s : σ} {acts : List α}

@[simp] theorem watch_state (w : Watched σ C) (a : α) :
    (m.watch w a).state = m.step w.state a := rfl

theorem watch_handed_none {w : Watched σ C} {a : α} (h : m.handsOut w.state a = none) :
    (m.watch w a).handed = w.handed := by
  unfold watch
  rw [h]
  rfl

theorem watch_handed_some {w : Watched σ C} {a : α} {c : C} (h : m.handsOut w.state a = some c) :
    (m.watch w a).handed = some c ∧ (m.watch w a).added = false := by
  unfold watch
  rw [h]
  exact ⟨rfl, rfl⟩

theorem watch_added {w : Watched σ C} {a : α} (h : m.handsOut w.state a = none) :
    (m.watch w a).added = (m.adds w.state a || w.added) := by
  unfold watch
  rw [h]
  rfl

theorem faithful_of_inv (Inv : Watched σ C → Prop) (hstart : Inv (start s))
    (hstep : ∀ w a, Inv w → Inv (m.watch w a))
    (hok : ∀ w a t, Inv w → m.returns w.state a = some t → ∃ c, w.handed = some c ∧ ok c t) :
    m.Faithful ok s acts := by
  intro pre a _ w hw t ht
  refine hok w a t ?_ ht
  refine Runs.inv_of_run Inv hstart ?_ hw
  intro u b v hu hv
  obtain rfl := Option.some.inj hv
  exact hstep u b hu

/-- Where a product goes with the last content just if nothing was added since, the faithful
runs are the undisturbed ones. -/
theorem faithful_iff_undisturbed (Inv : Watched σ C → Prop) (hstart : Inv (start s))
    (hstep : ∀ w a, Inv w → Inv (m.watch w a))
    (hok : ∀ w a t, Inv w → m.returns w.state a = some t →
      ((∃ c, w.handed = some c ∧ ok c t) ↔ w.added = false)) :
    m.Faithful ok s acts ↔ m.Undisturbed s acts := by
  refine Runs.guarded_congr Inv hstart ?_ ?_
  · intro u a v hu _ hv
    obtain rfl := Option.some.inj hv
    exact hstep u a hu
  · intro w a hw
    exact forall₂_congr fun t ht => hok w a t hw ht

/-- A machine that keeps what it handed out, and returns products of what it keeps, is faithful. -/
theorem faithful_of_frozen (frozen : σ → Option C) (hstart : frozen s = none)
    (hsome : ∀ s a c, m.handsOut s a = some c → ∀ c', frozen (m.step s a) = some c' → c' = c)
    (hnone : ∀ s a, m.handsOut s a = none → ∀ c, frozen (m.step s a) = some c → frozen s = some c)
    (hok : ∀ s a t, m.returns s a = some t → ∃ c, frozen s = some c ∧ ok c t) :
    m.Faithful ok s acts := by
  refine faithful_of_inv (fun w => ∀ c, frozen w.state = some c → w.handed = some c) ?_ ?_ ?_
  · intro c hc
    rw [start, hstart] at hc
    cases hc
  · intro w a hw c hc
    rw [watch_state] at hc
    cases hout : m.handsOut w.state a with
    | none => exact (watch_handed_none hout).trans (hw c (hnone _ _ hout c hc))
    | some c' => rw [(watch_handed_some hout).1, hsome _ _ _ hout c hc]
  · intro w a t hw ht
    obtain ⟨c, hc, hct⟩ := hok _ _ _ ht
    exact ⟨c, hw c hc, hct⟩

end Machine
