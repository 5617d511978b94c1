import Mathlib.Data.List.Induction
import Mathlib.Tactic.Common

/-!
# Runs of a partial step function

A system is a step function that answers `none` where an action is not enabled.
A run is a list of actions; its rules lift what one step does to whole runs.
-/

namespace Runs

variable {σ α : Type} {step : σ → α → Option σ} {s t : σ} {acts pre : List α}

/-- The state that the actions lead to, if each is enabled in its turn. -/
def run (step : σ → α → Option σ) (s : σ) (acts : List α) : Option σ := acts.foldlM step s

@[simp] theorem run_nil : run step s [] = some s := rfl

theorem run_append (l₁ l₂ : List α) :
    run step s (l₁ ++ l₂) = (run step s l₁).bind fun u => run step u l₂ := by
  rw [run, List.foldlM_append]; rfl

theorem run_concat_eq_some {a : α} :
    run step s (acts ++ [a]) = some t ↔ ∃ u, run step s acts = some u ∧ step u a = some t := by
  rw [run_append, Option.bind_eq_some_iff]
  simp [run]

/-! ## Invariants -/

theorem inv_of_run (Inv : σ → Prop) (hinit : Inv s)
    (hstep : ∀ u a v, Inv u → step u a = some v → Inv v) (hr : run step s acts = some t) :
    Inv t := by
  induction acts using List.reverseRecOn generalizing t with
  | nil => exact Option.some.inj hr ▸ hinit
  | append_singleton acts a ih =>
    obtain ⟨u, hu, ha⟩ := run_concat_eq_some.mp hr
    exact hstep u a t (ih hu) ha

/-- Every step of the run is taken in a state where the guard allows its action. -/
def Guarded (step : σ → α → Option σ) (guard : σ → α → Prop) (s : σ) (acts : List α) : Prop :=
  ∀ pre a, pre ++ [a] <+: acts → ∀ u, run step s pre = some u → guard u a

variable {guard guard' : σ → α → Prop}

theorem guarded_nil : Guarded step guard s [] := by
  intro pre a hp
  simp at hp

theorem Guarded.mono (h : Guarded step guard s acts) (hp : pre <+: acts) :
    Guarded step guard s pre :=
  fun _ _ hq => h _ _ (hq.trans hp)

theorem guarded_concat {a : α} :
    Guarded step guard s (acts ++ [a]) ↔
      Guarded step guard s acts ∧ ∀ u, run step s acts = some u → guard u a := by
  constructor
  · intro h
    exact ⟨h.mono (List.prefix_append _ _), h acts a (List.prefix_refl _)⟩
  · rintro ⟨h, ha⟩ pre b hp
    rcases List.prefix_concat_iff.mp hp with heq | hp
    · obtain ⟨rfl, hb⟩ := List.append_inj' heq rfl
      obtain rfl := List.singleton_inj.mp hb
      exact ha
    · exact h pre b hp

theorem Guarded.of_append {l : List α} (h : Guarded step guard s (pre ++ l))
    (hr : run step s pre = some t) : Guarded step guard t l := by
  intro mid a hp u hu
  refine h (pre ++ mid) a ?_ u ?_
  · rw [List.append_assoc]
    exact (List.prefix_append_right_inj pre).mpr hp
  · rw [run_append, hr]
    exact hu

theorem Guarded.and (h : Guarded step guard s acts) (h' : Guarded step guard' s acts) :
    Guarded step (fun s a => guard s a ∧ guard' s a) s acts :=
  fun pre a hp u hu => ⟨h pre a hp u hu, h' pre a hp u hu⟩

theorem guarded_cons {a : α} :
    Guarded step guard s (a :: acts) ↔
      guard s a ∧ ∀ u, step s a = some u → Guarded step guard u acts := by
  constructor
  · intro h
    refine ⟨h [] a (by simp) s rfl, fun u hu pre b hp v hv => h (a :: pre) b ?_ v ?_⟩
    · exact List.cons_prefix_cons.mpr ⟨rfl, hp⟩
    · simpa [run, hu] using hv
  · rintro ⟨ha, h⟩ pre b hp v hv
    cases pre with
    | nil =>
      obtain rfl := Option.some.inj hv
      rw [List.nil_append, List.cons_prefix_cons] at hp
      exact hp.1 ▸ ha
    | cons c pre =>
      rw [List.cons_append, List.cons_prefix_cons] at hp
      obtain ⟨rfl, hp⟩ := hp
      rw [run, List.foldlM_cons, Option.bind_eq_bind, Option.bind_eq_some_iff] at hv
      obtain ⟨u, hu, hv⟩ := hv
      exact h u hu pre b hp v hv

/-- Whether a run is guarded can be tried out, one step after the other. -/
instance Guarded.decidable [∀ u a, Decidable (guard u a)] :
    (s : σ) → (acts : List α) → Decidable (Guarded step guard s acts)
  | _, [] => isTrue guarded_nil
  | s, a :: acts =>
    have := fun u => Guarded.decidable u acts
    decidable_of_iff (guard s a ∧ ∀ u ∈ step s a, Guarded step guard u acts) guarded_cons.symm

theorem inv_of_guarded (Inv : σ → Prop) (hinit : Inv s)
    (hstep : ∀ u a v, Inv u → guard u a → step u a = some v → Inv v)
    (hg : Guarded step guard s acts) (hr : run step s acts = some t) : Inv t := by
  induction acts using List.reverseRecOn generalizing t with
  | nil => exact Option.some.inj hr ▸ hinit
  | append_singleton acts a ih =>
    obtain ⟨u, hu, ha⟩ := run_concat_eq_some.mp hr
    obtain ⟨hg, hga⟩ := guarded_concat.mp hg
    exact hstep u a t (ih hg hu) (hga u hu) ha

theorem guarded_congr (Inv : σ → Prop) (hinit : Inv s)
    (hstep : ∀ u a v, Inv u → guard u a → step u a = some v → Inv v)
    (hiff : ∀ u a, Inv u → (guard u a ↔ guard' u a)) :
    Guarded step guard s acts ↔ Guarded step guard' s acts := by
  induction acts using List.reverseRecOn with
  | nil => exact iff_of_true guarded_nil guarded_nil
  | append_singleton acts a ih =>
    rw [guarded_concat, guarded_concat, ← ih]
    apply and_congr_right
    intro hg
    have hinv : ∀ u, run step s acts = some u → Inv u :=
      fun u hu => inv_of_guarded Inv hinit hstep hg hu
    exact forall₂_congr fun u hu => hiff u a (hinv u hu)

/-- A run that breaks the guard breaks it for the first time somewhere. -/
theorem exists_first_break (hg : ¬ Guarded step guard s acts) (hr : run step s acts = some t) :
    ∃ pre a u v, pre ++ [a] <+: acts ∧ Guarded step guard s pre ∧ run step s pre = some u ∧
      ¬ guard u a ∧ step u a = some v ∧ run step s (pre ++ [a]) = some v := by
  induction acts using List.reverseRecOn generalizing t with
  | nil => exact absurd guarded_nil hg
  | append_singleton acts a ih =>
    obtain ⟨u, hu, ha⟩ := run_concat_eq_some.mp hr
    by_cases h : Guarded step guard s acts
    · refine ⟨acts, a, u, t, List.prefix_refl _, h, hu, ?_, ha, hr⟩
      intro hua
      refine hg (guarded_concat.mpr ⟨h, fun u' hu' => ?_⟩)
      rw [hu] at hu'
      exact Option.some.inj hu' ▸ hua
    · obtain ⟨pre, b, u, v, hp, rest⟩ := ih h hu
      exact ⟨pre, b, u, v, hp.trans (List.prefix_append _ _), rest⟩

end Runs
