import FrostZm.Lib.Stages
import FrostZm.Session.Schedule

/-!
# Ceremonies that come to an end

Parties that wait for each other in no circle do not get stuck: when nothing is on its way any
more, everyone has ended.
-/

open Phases

namespace Net

variable {α : Type}

/-- Nothing is on its way to a party that goes on. -/
structure Quiet (w : Setting) (net : Net α) : Prop where
  outbox : ∀ p ∈ w.ids, (net.party p).outbox = []
  channel : ∀ r ∈ w.ids, (net.party r).outcome = none → ∀ s, net.channel s r = []

/-- Everyone has a result. -/
def Ended (w : Setting) (net : Net α) : Prop :=
  ∀ p ∈ w.ids, ∃ a, (net.party p).outcome = some (.ok a)

/-- Whoever is awaited in a phase writes what it owes until then before a phase of its own, and all
its phases before that one are over earlier. -/
def Clocked (w : Setting) (phases : UInt16 → List (Phase UInt16 Bytes Bytes))
    (fin : UInt16 → List Bytes) (time : UInt16 → ℕ → ℕ) : Prop :=
  ∀ r ∈ w.ids, ∀ k ph, (phases r)[k]? = some ph → ∀ s ∈ ph.senders, s ∈ w.ids ∧
    ∃ i ≤ (phases s).length, (∀ j < i, time s j < time r k) ∧
      expected ((phases r).take (k + 1)) s <+:
        copies w.ids s r ((blocks (phases s) (fin s)).take (i + 1)).flatten

variable {w : Setting} {body : UInt16 → Ceremony α}
  {phases : UInt16 → List (Phase UInt16 Bytes Bytes)} {fin : UInt16 → List Bytes}
  {result : UInt16 → α} {net net' : Net α} {acts : List Action} {time : UInt16 → ℕ → ℕ}

theorem copies_mono {ids : Finset UInt16} {s r : UInt16} {l l' : List Bytes} (h : l <+: l') :
    copies ids s r l <+: copies ids s r l' := by
  obtain ⟨t, rfl⟩ := h
  unfold copies
  rw [List.flatMap_append]
  exact List.prefix_append _ _

theorem Quiet.sentBy_eq (hq : Quiet w net) (hr : run w body acts = some net) {s r : UInt16}
    (hs : s ∉ w.corrupt) (hsi : s ∈ w.ids) (hri : r ∈ w.ids) (hopen : (net.party r).outcome = none) :
    sentBy s (net.fed r) = copies w.ids s r ((body s).outs (net.frames s)) := by
  obtain ⟨taken, hinv⟩ := inv_run hr
  have hfifo := hinv.fifo s r hs
  rw [hq.channel r hri hopen s, List.append_nil] at hfifo
  rw [hfifo, ← (hinv.tracks s).outbox, hq.outbox s hsi, List.append_nil]

/-- The parties of a ceremony without circles have all ended when nothing is on its way. -/
theorem Planned.finished (hs : Planned w body phases fin result) (hc : Clocked w phases fin time)
    (hr : run w body acts = some net) (hkeep : KeepsPhase w body (planOf phases) acts)
    (hq : Quiet w net) : ∀ p ∈ w.ids, (net.party p).outcome = some (.ok (result p)) := by
  have hfit := hs.fits_run hr hkeep
  have hended : ∀ p ∈ w.ids, total (phases p) ≤ (net.fed p).length →
      (net.party p).outcome = some (.ok (result p)) := by
    intro p hp hle
    rw [outcome_eq hr p, frames,
      (hs.reads p hp).eval_of_full (hfit p hp) (Nat.le_antisymm (hfit p hp).length_le hle)]
    rfl
  by_contra hnot
  push Not at hnot
  obtain ⟨p, hp, hopen⟩ := hnot
  have hnonempty : (w.ids.filter fun p => (net.fed p).length < total (phases p)).Nonempty := by
    refine ⟨p, Finset.mem_filter.mpr ⟨hp, ?_⟩⟩
    exact Nat.lt_of_not_le fun hle => hopen (hended p hp hle)
  -- of those who wait, the one whose phase is the earliest
  obtain ⟨r, hmem, hmin⟩ := Finset.exists_min_image _
    (fun p => time p (stage (phases p) (net.fed p).length)) hnonempty
  obtain ⟨hri, hlt⟩ := Finset.mem_filter.mp hmem
  obtain ⟨ph, s, hget, hsender, hsent⟩ := (hfit r hri).exists_awaited hlt
  obtain ⟨hsi, i, hi, hearlier, howed⟩ := hc r hri _ ph hget s hsender
  have hstage : i ≤ stage (phases s) (net.fed s).length := by
    by_cases hwaits : (net.fed s).length < total (phases s)
    · by_contra hgt
      have hle := hmin s (Finset.mem_filter.mpr ⟨hsi, hwaits⟩)
      have hbefore := hearlier _ (Nat.lt_of_not_le hgt)
      omega
    · rw [Nat.le_antisymm (hfit s hsi).length_le (Nat.le_of_not_lt hwaits), stage_total]
      exact hi
  have hwait : (net.party r).outcome = none := by
    rw [outcome_eq hr r, frames, (hs.reads r hri).eval_of_lt (hfit r hri) hlt]
    rfl
  have hgiven := hq.sentBy_eq hr (hs.honest ▸ Finset.notMem_empty s) hsi hri hwait
  rw [frames, (hs.reads s hsi).outs_eq (hfit s hsi), hsent] at hgiven
  have hblocks : ((blocks (phases s) (fin s)).take (i + 1)).flatten <+:
      ((blocks (phases s) (fin s)).take (stage (phases s) (net.fed s).length + 1)).flatten :=
    (List.take_prefix_take_left (by omega)).flatten
  have hle := (howed.trans (copies_mono hblocks)).length_le
  rw [← hgiven, expected_take_succ hget hsender, List.length_append, List.length_singleton] at hle
  omega

theorem Planned.keepsPhase_of_single (hs : Planned w body phases fin result)
    (hone : ∀ p ∈ w.ids, ∃ s, ∀ senders ∈ planOf phases p, senders = {s})
    (hr : run w body acts = some net) : KeepsPhase w body (planOf phases) acts := by
  by_contra hbreak
  obtain ⟨pre, a, u, v, -, hkeep, hu, hbad, -, hv⟩ := Runs.exists_first_break hbreak hr
  cases a with
  | drain q => exact hbad trivial
  | inject s r m => exact hbad trivial
  | deliver s r =>
    obtain ⟨u', hu', hstep⟩ := Runs.run_concat_eq_some.mp hv
    obtain rfl : u = u' := Option.some.inj (hu.symm.trans hu')
    obtain ⟨m, rest, hc, -⟩ := step_deliver hstep
    have hfit := hs.fits_run hu hkeep
    obtain ⟨hri, hnext⟩ := hs.next_expected hu hfit hc
    obtain ⟨t, ht⟩ := hone r hri
    have hsenders : ∀ ph ∈ phases r, ph.senders = {t} := fun ph hph =>
      ht _ (List.mem_map_of_mem hph)
    have hst : s = t := by
      by_contra hne
      have hnone : expected (phases r) s = [] := by
        apply List.filterMap_eq_nil_iff.mpr
        intro ph hph
        simp [hsenders ph hph, hne]
      rw [hnone, List.prefix_nil] at hnext
      simp at hnext
    subst hst
    exact hbad ((hfit r hri).awaits_of_single hsenders hnext)

theorem Scripted.noError_iff (hs : Scripted w body phases fin result)
    (hr : run w body acts = some net) :
    (∀ pre, pre <+: acts → ∀ u, run w body pre = some u →
      ∀ p ∈ w.ids, ∀ e, (u.party p).outcome ≠ some (.error e)) ↔
        KeepsPhase w body (planOf phases) acts := by
  constructor
  · intro h
    by_contra hbreak
    obtain ⟨pre, u, hpre, hu, p, hp, e, he⟩ := hs.error_of_not_keepsPhase hr hbreak
    exact h pre hpre u hu p hp e he
  · intro hkeep pre hpre u hu p hp e he
    rcases hs.planned.outcome_of_keepsPhase hu (hkeep.mono hpre) hp with h | h
    · rw [h] at he
      nomatch he
    · rw [h] at he
      nomatch he

/-! ## Both directions -/

theorem outcome_stays {pre : List Action} (hpre : pre <+: acts) {u : Net α}
    (hu : run w body pre = some u) (hr : run w body acts = some net) {p : UInt16} {x : Result α}
    (hx : (u.party p).outcome = some x) : (net.party p).outcome = some x := by
  obtain ⟨l, rfl⟩ := hpre
  rw [run, Runs.run_append, Option.bind_eq_some_iff] at hr
  obtain ⟨v, hv, hr⟩ := hr
  obtain rfl := Option.some.inj (hu.symm.trans hv)
  refine Runs.inv_of_run (fun v : Net α => (v.party p).outcome = some x) hx ?_ hr
  intro v a v' hv hstep
  cases a with
  | drain q =>
    obtain ⟨-, m, proto, hm, rfl⟩ := step_drain hstep
    by_cases hpq : p = q
    · subst hpq
      have hout : proto.outcome = (v.party p).outcome := by
        unfold Protocol.takeMsg at hm
        split at hm
        · nomatch (Prod.mk.inj hm).1
        · rw [← (Prod.mk.inj hm).2]
      simpa [hout] using hv
    · simpa [hpq] using hv
  | inject s r m =>
    obtain ⟨-, rfl⟩ := step_inject hstep
    exact hv
  | deliver s r =>
    obtain ⟨m, rest, -, rfl⟩ := step_deliver hstep
    by_cases hpr : p = r
    · subst hpr
      have hfeed : ((v.party p).feed (wrapSender s m)).2 = v.party p := by
        simp [Protocol.feed, hv]
      simpa [hfeed] using hv
    · simpa [hpr] using hv

theorem Scripted.ended_iff (hs : Scripted w body phases fin result)
    (hc : Clocked w phases fin time) (hr : run w body acts = some net) (hq : Quiet w net) :
    Ended w net ↔ KeepsPhase w body (planOf phases) acts := by
  constructor
  · intro hall
    by_contra hbreak
    obtain ⟨pre, u, hpre, hu, p, hp, e, he⟩ := hs.error_of_not_keepsPhase hr hbreak
    have hstays := outcome_stays hpre hu hr he
    obtain ⟨a, ha⟩ := hall p hp
    rw [ha] at hstays
    nomatch hstays
  · intro hkeep p hp
    exact ⟨result p, hs.planned.finished hc hr hkeep hq p hp⟩

end Net
