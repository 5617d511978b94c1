import FrostZm.Lib.Runs

/-!
# Simulations

Two systems, where each step of the first is one step of the second or none. What holds of every
state or every step of a run can then be read off the run of the other system.
-/

namespace Runs

variable {σ τ α β : Type}

/-- The actions of the second system along a run of the first. -/
def trace (step : σ → α → Option σ) (action : σ → α → Option β) : σ → List α → List β
  | _, [] => []
  | s, a :: acts => (action s a).toList ++ (step s a).elim [] fun t => trace step action t acts

variable {step : σ → α → Option σ} {step' : τ → β → Option τ} {action : σ → α → Option β}
  {guard : σ → α → Prop} {Rel : σ → τ → Prop} {s t : σ} {v : τ} {acts : List α}

theorem trace_append {l : List α} (h : run step s acts = some t) :
    trace step action s (acts ++ l) = trace step action s acts ++ trace step action t l := by
  induction acts generalizing s with
  | nil =>
    obtain rfl := Option.some.inj h
    rfl
  | cons b acts ih =>
    rw [run, List.foldlM_cons, Option.bind_eq_bind, Option.bind_eq_some_iff] at h
    obtain ⟨u, hu, h⟩ := h
    simp only [List.cons_append, trace, hu, Option.elim_some, List.append_assoc]
    rw [ih h]

theorem trace_concat {a : α} (h : run step s acts = some t) :
    trace step action s (acts ++ [a]) = trace step action s acts ++ (action t a).toList := by
  rw [trace_append h]
  cases hstep : step t a <;> simp [trace, hstep]

/-- `Rel` relates the states, and `action` names the step that a guarded step is matched by. -/
structure Simulates (step : σ → α → Option σ) (guard : σ → α → Prop) (step' : τ → β → Option τ)
    (action : σ → α → Option β) (Rel : σ → τ → Prop) : Prop where
  matched : ∀ u v a u' b, Rel u v → guard u a → step u a = some u' → action u a = some b →
    ∃ v', step' v b = some v' ∧ Rel u' v'
  stutters : ∀ u v a u', Rel u v → guard u a → step u a = some u' → action u a = none → Rel u' v

namespace Simulates

theorem run (h : Simulates step guard step' action Rel) (hrel : Rel s v)
    (hg : Guarded step guard s acts) (hr : run step s acts = some t) :
    ∃ v', Runs.run step' v (trace step action s acts) = some v' ∧ Rel t v' := by
  induction acts using List.reverseRecOn generalizing t with
  | nil =>
    obtain rfl := Option.some.inj hr
    exact ⟨v, rfl, hrel⟩
  | append_singleton acts a ih =>
    obtain ⟨u, hu, ha⟩ := run_concat_eq_some.mp hr
    obtain ⟨hg, hga⟩ := guarded_concat.mp hg
    obtain ⟨x, hx, hux⟩ := ih hg hu
    rw [trace_concat hu]
    cases hact : action u a with
    | none =>
      rw [Option.toList_none, List.append_nil]
      exact ⟨x, hx, h.stutters u x a t hux (hga u hu) ha hact⟩
    | some b =>
      obtain ⟨y, hy, hty⟩ := h.matched u x a t b hux (hga u hu) ha hact
      exact ⟨y, run_concat_eq_some.mpr ⟨x, hx, hy⟩, hty⟩

theorem guarded_iff (h : Simulates step guard step' action Rel) (hrel : Rel s v)
    (hg : Guarded step guard s acts) (hr : Runs.run step s acts = some t) {g : σ → α → Prop}
    {g' : τ → β → Prop} (hiff : ∀ u x a b, Rel u x → action u a = some b → (g u a ↔ g' x b))
    (hnone : ∀ u a, action u a = none → g u a) :
    Guarded step g s acts ↔ Guarded step' g' v (trace step action s acts) := by
  induction acts using List.reverseRecOn generalizing t with
  | nil => exact iff_of_true guarded_nil guarded_nil
  | append_singleton acts a ih =>
    obtain ⟨u, hu, -⟩ := run_concat_eq_some.mp hr
    obtain ⟨hg, -⟩ := guarded_concat.mp hg
    obtain ⟨x, hx, hux⟩ := h.run hrel hg hu
    have hlast : (∀ u', Runs.run step s acts = some u' → g u' a) ↔ g u a := by
      simp [hu]
    rw [guarded_concat, ih hg hu, hlast, trace_concat hu]
    cases hact : action u a with
    | none => simp [hnone u a hact]
    | some b =>
      rw [Option.toList_some, guarded_concat, hiff u x a b hux hact]
      simp [hx]

theorem exists_prefix (hr : Runs.run step s acts = some t) {pre : List β}
    (hpre : pre <+: trace step action s acts) :
    ∃ l, l <+: acts ∧ trace step action s l = pre := by
  induction acts using List.reverseRecOn generalizing t with
  | nil => exact ⟨[], List.prefix_rfl, (List.prefix_nil.mp hpre).symm⟩
  | append_singleton acts a ih =>
    obtain ⟨u, hu, -⟩ := run_concat_eq_some.mp hr
    have hshort : pre <+: trace step action s acts →
        ∃ l, l <+: acts ++ [a] ∧ trace step action s l = pre := by
      intro hpre
      obtain ⟨l, hl, heq⟩ := ih hu hpre
      exact ⟨l, hl.trans (List.prefix_append _ _), heq⟩
    have htrace : trace step action s (acts ++ [a]) =
        trace step action s acts ++ (action u a).toList := trace_concat hu
    cases hact : action u a with
    | none =>
      rw [htrace, hact, Option.toList_none, List.append_nil] at hpre
      exact hshort hpre
    | some b =>
      rw [htrace, hact, Option.toList_some, List.prefix_concat_iff] at hpre
      rcases hpre with rfl | hpre
      · refine ⟨acts ++ [a], List.prefix_rfl, ?_⟩
        rw [htrace, hact, Option.toList_some]
      · exact hshort hpre

theorem forall_states_iff (h : Simulates step guard step' action Rel) (hrel : Rel s v)
    (hg : Guarded step guard s acts) (hr : Runs.run step s acts = some t) {P : σ → Prop}
    {P' : τ → Prop} (hiff : ∀ u x, Rel u x → (P u ↔ P' x)) :
    (∀ pre, pre <+: acts → ∀ u, Runs.run step s pre = some u → P u) ↔
      ∀ pre, pre <+: trace step action s acts → ∀ x, Runs.run step' v pre = some x → P' x := by
  constructor
  · intro hall pre hpre x hx
    obtain ⟨l, ⟨l', rfl⟩, rfl⟩ := exists_prefix hr hpre
    rw [run_append, Option.bind_eq_some_iff] at hr
    obtain ⟨u, hu, -⟩ := hr
    obtain ⟨y, hy, huy⟩ := h.run hrel (hg.mono (List.prefix_append _ _)) hu
    obtain rfl := Option.some.inj (hx.symm.trans hy)
    exact (hiff u x huy).mp (hall l (List.prefix_append _ _) u hu)
  · rintro hall pre ⟨l, rfl⟩ u hu
    obtain ⟨x, hx, hux⟩ := h.run hrel (hg.mono (List.prefix_append _ _)) hu
    rw [trace_append hu] at hall
    exact (hiff u x hux).mpr (hall _ (List.prefix_append _ _) x hx)

end Simulates

end Runs
