import FrostZm.Lib.Phases

/-!
# How far a log fills its phases

The stage of a log is the phase that is being read. It says what has been written, and from whom
a message is still awaited.
-/

namespace Phases

set_option linter.unusedSectionVars false

variable {P M ε ι ω α : Type} [DecidableEq P]

/-- How many phases are full after `n` messages. -/
def stage : List (Phase P M ω) → Nat → Nat
  | [], _ => 0
  | ph :: rest, n => if n < ph.senders.card then 0 else stage rest (n - ph.senders.card) + 1

/-- What is written before each phase, and what is written in the end. -/
def blocks (phases : List (Phase P M ω)) (fin : List ω) : List (List ω) :=
  phases.map Phase.writes ++ [fin]

variable {phases : List (Phase P M ω)} {ph : Phase P M ω} {log : List (P × M)} {s : P}
  {enc : P × M → ι} {fin : List ω} {a : α} {p : Proc ε ι ω α}

theorem flatten_blocks (phases : List (Phase P M ω)) (fin : List ω) :
    ((blocks phases fin).take phases.length).flatten = written phases [] := by
  unfold blocks written
  rw [List.take_left' (List.length_map _), List.append_nil]

theorem total_cons (ph : Phase P M ω) (rest : List (Phase P M ω)) :
    total (ph :: rest) = ph.senders.card + total rest := by
  simp [total]

theorem stage_total (phases : List (Phase P M ω)) : stage phases (total phases) = phases.length := by
  induction phases with
  | nil => rfl
  | cons ph rest ih =>
    rw [stage, total_cons, if_neg (by omega), Nat.add_sub_cancel_left, ih, List.length_cons]

theorem Collects.sentBy_of_not_mem (h : Collects ph log) (hs : s ∉ ph.senders) :
    sentBy s log = [] := by
  apply sentBy_eq_nil
  intro hmem
  obtain ⟨x, hx, rfl⟩ := List.mem_map.mp hmem
  exact hs (h.mem x hx).1

theorem exists_awaited_of_lt (hlt : log.length < ph.senders.card) :
    ∃ s ∈ ph.senders, s ∉ log.map Prod.fst := by
  by_contra hall
  push Not at hall
  have hsub : ph.senders ⊆ (log.map Prod.fst).toFinset := fun s hs => List.mem_toFinset.mpr (hall s hs)
  have hle := (Finset.card_le_card hsub).trans (List.toFinset_card_le _)
  rw [List.length_map] at hle
  omega

/-- While messages are missing, one is awaited from a sender of the phase that is being read, and
what this sender has sent are its messages of the phases before. -/
theorem Fits.exists_awaited (h : Fits phases log) (hlt : log.length < total phases) :
    ∃ ph s, phases[stage phases log.length]? = some ph ∧ s ∈ ph.senders ∧
      sentBy s log = expected (phases.take (stage phases log.length)) s := by
  induction phases generalizing log with
  | nil => simp [total] at hlt
  | cons ph rest ih =>
    obtain ⟨hcol, hrest⟩ := h
    by_cases hshort : log.length < ph.senders.card
    · rw [List.take_of_length_le (by omega)] at hcol
      obtain ⟨s, hs, hnot⟩ := exists_awaited_of_lt hshort
      refine ⟨ph, s, ?_, hs, ?_⟩
      · simp [stage, hshort]
      · simp [stage, hshort, sentBy_eq_nil hnot, expected]
    · have hfull : (log.take ph.senders.card).length = ph.senders.card := by
        rw [List.length_take]
        omega
      rw [total_cons] at hlt
      obtain ⟨ph', s, hget, hs, hsent⟩ := ih hrest (by rw [List.length_drop]; omega)
      rw [List.length_drop] at hget hsent
      have hstage : stage (ph :: rest) log.length = stage rest (log.length - ph.senders.card) + 1 := by
        simp [stage, hshort]
      refine ⟨ph', s, ?_, hs, ?_⟩
      · rw [hstage, List.getElem?_cons_succ, hget]
      · rw [hstage, List.take_succ_cons, ← sentBy_take_drop s log ph.senders.card, hsent]
        by_cases hmem : s ∈ ph.senders
        · rw [hcol.sentBy_of_mem (hcol.mem_of_full hfull hmem)]
          simp [expected, hmem]
        · rw [hcol.sentBy_of_not_mem hmem]
          simp [expected, hmem]

theorem Reads.outs_eq (hf : Reads enc phases fin a p) (h : Fits phases log) :
    p.outs (log.map enc) = ((blocks phases fin).take (stage phases log.length + 1)).flatten := by
  induction phases generalizing log p with
  | nil =>
    obtain rfl : log = [] := h
    simp [blocks, stage, hf.2]
  | cons ph rest ih =>
    obtain ⟨hcol, hrest⟩ := h
    by_cases hshort : log.length < ph.senders.card
    · rw [List.take_of_length_le (by omega)] at hcol
      simp [(hf.1 log hcol hshort).2, blocks, stage, hshort]
    · have hfull : (log.take ph.senders.card).length = ph.senders.card := by
        rw [List.length_take]
        omega
      obtain ⟨q, hq, hfq⟩ := hf.2 _ hcol hfull
      have hstage : stage (ph :: rest) log.length = stage rest (log.length - ph.senders.card) + 1 := by
        simp [stage, hshort]
      have hlog : (log.take ph.senders.card).map enc ++ (log.drop ph.senders.card).map enc =
          log.map enc := by
        rw [← List.map_append, List.take_append_drop]
      rw [← hlog, (hq _).2, ih hfq hrest, List.length_drop, hstage]
      rfl

theorem Fits.awaits_of_single {m : M} (h : Fits phases log) (hone : ∀ ph ∈ phases, ph.senders = {s})
    (hnext : sentBy s log ++ [m] <+: expected phases s) :
    Awaits (phases.map Phase.senders) (log.map Prod.fst) s := by
  induction phases generalizing log with
  | nil =>
    have hlen := hnext.length_le
    simp [expected] at hlen
  | cons ph rest ih =>
    have hph := hone ph List.mem_cons_self
    have hrest := fun ph' hmem => hone ph' (List.mem_cons_of_mem ph hmem)
    rw [List.map_cons, hph]
    cases log with
    | nil => simp [Awaits]
    | cons x log =>
      obtain ⟨hcol, hfits⟩ := h
      rw [hph, Finset.card_singleton] at hcol hfits
      obtain ⟨hx, hm⟩ := hcol.mem x List.mem_cons_self
      rw [hph, Finset.mem_singleton] at hx
      obtain ⟨t, m'⟩ := x
      obtain rfl : t = s := hx
      have hexpected : expected (ph :: rest) t = ph.message t :: expected rest t := by
        simp [expected, hph]
      rw [sentBy_cons_self, hexpected, List.cons_append, List.cons_prefix_cons] at hnext
      simpa [Awaits] using ih hfits hrest hnext.2

theorem expected_take_succ {k : Nat} (hget : phases[k]? = some ph) (hs : s ∈ ph.senders) :
    expected (phases.take (k + 1)) s = expected (phases.take k) s ++ [ph.message s] := by
  rw [List.take_add_one, hget]
  simp [expected, hs]

end Phases
