import FrostZm.Session.Network

/-!
# Schedules of an honest ceremony

When every party follows its phases, whether a run survives depends on its schedule
alone: it does exactly as long as each message is delivered in the phase that reads it.
-/

open Phases

namespace Net

variable {α : Type}

/-- A ceremony of honest parties: what each reads in its phases is what the others
write for it, and each ends with its `result`. -/
structure Scripted (w : Setting) (body : UInt16 → Ceremony α)
    (phases : UInt16 → List (Phase UInt16 Bytes Bytes)) (fin : UInt16 → List Bytes)
    (result : UInt16 → α) : Prop where
  honest : w.corrupt = ∅
  follows : ∀ p ∈ w.ids, Follows FrostChannel.frame (phases p) (fin p) (result p) (body p)
  script : ∀ s ∈ w.ids, ∀ r ∈ w.ids, r ≠ s →
    copies w.ids s r (written (phases s) (fin s)) <+: expected (phases r) s

/-- The same, of parties that may not notice a message out of its phase. -/
structure Planned (w : Setting) (body : UInt16 → Ceremony α)
    (phases : UInt16 → List (Phase UInt16 Bytes Bytes)) (fin : UInt16 → List Bytes)
    (result : UInt16 → α) : Prop where
  honest : w.corrupt = ∅
  reads : ∀ p ∈ w.ids, Reads FrostChannel.frame (phases p) (fin p) (result p) (body p)
  script : ∀ s ∈ w.ids, ∀ r ∈ w.ids, r ≠ s →
    copies w.ids s r (written (phases s) (fin s)) <+: expected (phases r) s

/-- A delivery is in phase when its recipient still waits for its sender's message of the
phase it is reading. The phases are given by their senders. -/
def InPhase (plan : UInt16 → List (Finset UInt16)) (net : Net α) : Action → Prop
  | .deliver s r => Awaits (plan r) ((net.fed r).map Prod.fst) s
  | _ => True

instance (plan : UInt16 → List (Finset UInt16)) (net : Net α) :
    (a : Action) → Decidable (InPhase plan net a)
  | .deliver s r => inferInstanceAs (Decidable (Awaits (plan r) ((net.fed r).map Prod.fst) s))
  | .drain _ => isTrue trivial
  | .inject _ _ _ => isTrue trivial

/-- Every delivery of the run is in phase. -/
abbrev KeepsPhase (w : Setting) (body : UInt16 → Ceremony α)
    (plan : UInt16 → List (Finset UInt16)) (acts : List Action) : Prop :=
  Runs.Guarded (step w) (InPhase plan) (init body) acts

variable {w : Setting} {body : UInt16 → Ceremony α}
  {phases : UInt16 → List (Phase UInt16 Bytes Bytes)} {fin : UInt16 → List Bytes}
  {result : UInt16 → α} {net net' : Net α} {acts : List Action}

/-- The senders of a party's phases. -/
def planOf (phases : UInt16 → List (Phase UInt16 Bytes Bytes)) (p : UInt16) :
    List (Finset UInt16) :=
  (phases p).map Phase.senders

theorem Scripted.planned (hs : Scripted w body phases fin result) :
    Planned w body phases fin result where
  honest := hs.honest
  reads p hp := (hs.follows p hp).reads
  script := hs.script

theorem Planned.next_expected (hs : Planned w body phases fin result)
    (hr : run w body acts = some net) (hfit : ∀ p ∈ w.ids, Fits (phases p) (net.fed p))
    {s r : UInt16} {m : Bytes} {rest : List Bytes} (hc : net.channel s r = m :: rest) :
    r ∈ w.ids ∧ sentBy s (net.fed r) ++ [m] <+: expected (phases r) s := by
  obtain ⟨hsi, hri, hne⟩ := mem_channel hr (hc ▸ List.mem_cons_self : m ∈ net.channel s r)
  refine ⟨hri, ?_⟩
  have hpre := sentBy_le_copies hr (hs.honest ▸ Finset.notMem_empty s) r
  have hout := (hs.reads s hsi).outs_le_written (hfit s hsi)
  have hcopies : copies w.ids s r ((body s).outs (net.frames s)) <+:
      copies w.ids s r (written (phases s) (fin s)) := by
    obtain ⟨t, ht⟩ := hout
    rw [← ht]
    unfold copies
    rw [List.flatMap_append]
    exact List.prefix_append _ _
  have hnext : sentBy s (net.fed r) ++ [m] <+: sentBy s (net.fed r) ++ net.channel s r :=
    ⟨rest, by rw [hc, List.append_assoc]; rfl⟩
  exact hnext.trans (hpre.trans (hcopies.trans (hs.script s hsi r hri hne)))

theorem Planned.fits_step (hs : Planned w body phases fin result) {a : Action}
    (hr : run w body acts = some net) (hfit : ∀ p ∈ w.ids, Fits (phases p) (net.fed p))
    (ha : InPhase (planOf phases) net a) (hstep : step w net a = some net') :
    ∀ p ∈ w.ids, Fits (phases p) (net'.fed p) := by
  intro p hp
  cases a with
  | drain q =>
    obtain ⟨-, m, proto, -, rfl⟩ := step_drain hstep
    exact hfit p hp
  | inject s r m =>
    obtain ⟨-, rfl⟩ := step_inject hstep
    exact hfit p hp
  | deliver s r =>
    obtain ⟨m, rest, hc, rfl⟩ := step_deliver hstep
    by_cases hpr : p = r
    · subst hpr
      simpa using (hfit p hp).concat ha (hs.next_expected hr hfit hc).2
    · simpa [hpr] using hfit p hp

theorem Planned.fits_run (hs : Planned w body phases fin result)
    (hr : run w body acts = some net) (hg : KeepsPhase w body (planOf phases) acts) :
    ∀ p ∈ w.ids, Fits (phases p) (net.fed p) := by
  induction acts using List.reverseRecOn generalizing net with
  | nil =>
    obtain rfl := Option.some.inj hr
    exact fun p _ => fits_nil (phases p)
  | append_singleton acts a ih =>
    obtain ⟨u, hu, ha⟩ := Runs.run_concat_eq_some.mp hr
    obtain ⟨hg, hga⟩ := Runs.guarded_concat.mp hg
    exact hs.fits_step hu (ih hu hg) (hga u hu) ha

theorem Planned.outcome_of_keepsPhase (hs : Planned w body phases fin result)
    (hr : run w body acts = some net) (hg : KeepsPhase w body (planOf phases) acts)
    {p : UInt16} (hp : p ∈ w.ids) :
    (net.party p).outcome = none ∨ (net.party p).outcome = some (.ok (result p)) := by
  have hfit := hs.fits_run hr hg p hp
  have hf := hs.reads p hp
  rw [outcome_eq hr p, frames]
  rcases Nat.lt_or_ge (net.fed p).length (total (phases p)) with hlt | hge
  · left
    rw [hf.eval_of_lt hfit hlt]
    rfl
  · right
    rw [hf.eval_of_full hfit (Nat.le_antisymm hfit.length_le hge)]
    rfl

/-- If everything that was delivered fits the phases at any time, each delivery was in phase. -/
theorem keepsPhase_of_fits (hr : run w body acts = some net)
    (hfit : ∀ pre, pre <+: acts → ∀ u, run w body pre = some u →
      ∀ p ∈ w.ids, Fits (phases p) (u.fed p)) :
    KeepsPhase w body (planOf phases) acts := by
  by_contra hbreak
  obtain ⟨pre, a, u, v, hpre, -, hu, hbad, -, hv⟩ := Runs.exists_first_break hbreak hr
  cases a with
  | drain q => exact hbad trivial
  | inject s r m => exact hbad trivial
  | deliver s r =>
    obtain ⟨u', hu', hstep⟩ := Runs.run_concat_eq_some.mp hv
    obtain rfl : u = u' := Option.some.inj (hu.symm.trans hu')
    obtain ⟨m, rest, hc, hveq⟩ := step_deliver hstep
    obtain ⟨-, hri, -⟩ := mem_channel hu (hc ▸ List.mem_cons_self : m ∈ u.channel s r)
    have hlog := hfit _ hpre v hv r hri
    have hfed : v.fed r = u.fed r ++ [(s, m)] := by simp [hveq]
    rw [hfed] at hlog
    exact hbad hlog.awaits

/-- The first delivery out of phase ends its recipient's session with an error. -/
theorem Scripted.error_of_not_keepsPhase (hs : Scripted w body phases fin result)
    (hr : run w body acts = some net) (hg : ¬ KeepsPhase w body (planOf phases) acts) :
    ∃ pre u, pre <+: acts ∧ run w body pre = some u ∧
      ∃ p ∈ w.ids, ∃ e, (u.party p).outcome = some (.error e) := by
  obtain ⟨pre, a, u, v, hpre, hkeep, hu, hbad, -, hv⟩ := Runs.exists_first_break hg hr
  refine ⟨pre ++ [a], v, hpre, hv, ?_⟩
  have hfit := hs.planned.fits_run hu hkeep
  cases a with
  | drain q => exact absurd trivial hbad
  | inject s r m => exact absurd trivial hbad
  | deliver s r =>
    obtain ⟨u', hu', hstep⟩ := Runs.run_concat_eq_some.mp hv
    obtain rfl : u = u' := Option.some.inj (hu.symm.trans hu')
    obtain ⟨m, rest, hc, hveq⟩ := step_deliver hstep
    obtain ⟨hri, hnext⟩ := hs.planned.next_expected hu hfit hc
    obtain ⟨e, he⟩ := (hs.follows r hri).eval_of_not_awaits (hfit r hri) hbad hnext
    refine ⟨r, hri, e, ?_⟩
    have hfed : v.fed r = u.fed r ++ [(s, m)] := by simp [hveq]
    rw [outcome_eq hv r, frames, hfed, List.map_append, List.map_singleton, he]
    rfl

end Net
