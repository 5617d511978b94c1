import FrostZm.Lib.Proc
import Mathlib

/-!
# Protocols in untagged phases

A party reads its messages in phases: one message from each sender of the first
phase, then one from each sender of the second, and so on. The messages carry no
phase number, so a log is read correctly only if each message arrives while its
own phase is being read.
-/

namespace Phases

set_option linter.unusedSectionVars false

variable {P M ε ι ω α : Type} [DecidableEq P]

/-- A phase reads one message from each of its senders, after the writes that precede it. -/
structure Phase (P M ω : Type) where
  writes : List ω
  senders : Finset P
  message : P → M

/-- What `s` contributed to a log. -/
def sentBy (s : P) (log : List (P × M)) : List M := (log.filter fun m => m.1 = s).map Prod.snd

@[simp] theorem sentBy_nil (s : P) : sentBy s ([] : List (P × M)) = [] := rfl

@[simp] theorem sentBy_append (s : P) (l₁ l₂ : List (P × M)) :
    sentBy s (l₁ ++ l₂) = sentBy s l₁ ++ sentBy s l₂ := by
  simp [sentBy]

@[simp] theorem sentBy_cons_self (s : P) (m : M) (l : List (P × M)) :
    sentBy s ((s, m) :: l) = m :: sentBy s l := by
  simp [sentBy]

theorem sentBy_cons_of_ne {s s' : P} (h : s' ≠ s) (m : M) (l : List (P × M)) :
    sentBy s ((s', m) :: l) = sentBy s l := by
  simp [sentBy, h]

theorem sentBy_eq_nil {s : P} {l : List (P × M)} (h : s ∉ l.map Prod.fst) : sentBy s l = [] := by
  induction l with
  | nil => rfl
  | cons x l ih =>
    rw [List.map_cons, List.mem_cons, not_or] at h
    rw [sentBy_cons_of_ne (Ne.symm h.1), ih h.2]

/-- Whether the phase being read still waits for a message from `s`, when the messages
so far came from `log`. -/
def Awaits : List (Finset P) → List P → P → Prop
  | [], _, _ => False
  | senders :: rest, log, s =>
    if log.length < senders.card then s ∈ senders ∧ s ∉ log
    else Awaits rest (log.drop senders.card) s

instance decidableAwaits : (plan : List (Finset P)) → (log : List P) → (s : P) →
    Decidable (Awaits plan log s)
  | [], _, _ => isFalse id
  | senders :: rest, log, s =>
    have := decidableAwaits rest (log.drop senders.card) s
    inferInstanceAs (Decidable (if log.length < senders.card then s ∈ senders ∧ s ∉ log
      else Awaits rest (log.drop senders.card) s))

/-- The messages that `s` sends over all phases, in order. -/
def expected (phases : List (Phase P M ω)) (s : P) : List M :=
  phases.filterMap fun ph => if s ∈ ph.senders then some (ph.message s) else none

/-! ## One phase -/

/-- A log of messages of this phase, at most one from each sender. -/
structure Collects (ph : Phase P M ω) (log : List (P × M)) : Prop where
  nodup : (log.map Prod.fst).Nodup
  mem : ∀ x ∈ log, x.1 ∈ ph.senders ∧ x.2 = ph.message x.1

variable {ph : Phase P M ω} {log : List (P × M)} {s : P} {m : M}

theorem collects_nil (ph : Phase P M ω) : Collects ph [] := ⟨List.nodup_nil, nofun⟩

theorem Collects.concat (h : Collects ph log) (hs : s ∈ ph.senders) (hn : s ∉ log.map Prod.fst) :
    Collects ph (log ++ [(s, ph.message s)]) := by
  constructor
  · rw [List.map_append, List.nodup_append]
    refine ⟨h.nodup, List.nodup_singleton _, ?_⟩
    intro a ha b hb hab
    rw [List.map_singleton, List.mem_singleton] at hb
    rw [hab, hb] at ha
    exact hn ha
  · intro x hx
    rcases List.mem_append.mp hx with hx | hx
    · exact h.mem x hx
    · obtain rfl := List.mem_singleton.mp hx
      exact ⟨hs, rfl⟩

theorem Collects.length_le (h : Collects ph log) : log.length ≤ ph.senders.card := by
  have hsub : (log.map Prod.fst).toFinset ⊆ ph.senders := by
    intro a ha
    obtain ⟨x, hx, rfl⟩ := List.mem_map.mp (List.mem_toFinset.mp ha)
    exact (h.mem x hx).1
  have hcard := Finset.card_le_card hsub
  rwa [List.toFinset_card_of_nodup h.nodup, List.length_map] at hcard

theorem Collects.mem_of_full (h : Collects ph log) (hl : log.length = ph.senders.card)
    (hs : s ∈ ph.senders) : s ∈ log.map Prod.fst := by
  have hsub : (log.map Prod.fst).toFinset ⊆ ph.senders := by
    intro a ha
    obtain ⟨x, hx, rfl⟩ := List.mem_map.mp (List.mem_toFinset.mp ha)
    exact (h.mem x hx).1
  have heq := Finset.eq_of_subset_of_card_le hsub
    (by rw [List.toFinset_card_of_nodup h.nodup, List.length_map, hl])
  exact List.mem_toFinset.mp (heq ▸ hs)

theorem Collects.sentBy_of_mem (h : Collects ph log) (hs : s ∈ log.map Prod.fst) :
    sentBy s log = [ph.message s] := by
  induction log with
  | nil => simp at hs
  | cons x log ih =>
    obtain ⟨hx, hn⟩ := List.nodup_cons.mp (List.map_cons ▸ h.nodup)
    have htail : Collects ph log := ⟨hn, fun y hy => h.mem y (List.mem_cons_of_mem _ hy)⟩
    have hmsg := (h.mem x List.mem_cons_self).2
    obtain ⟨p, m⟩ := x
    by_cases hp : p = s
    · subst hp
      rw [sentBy_cons_self, sentBy_eq_nil hx]
      exact congrArg (fun m => [m]) hmsg
    · rw [List.map_cons, List.mem_cons] at hs
      rw [sentBy_cons_of_ne hp, ih htail (hs.resolve_left (Ne.symm hp))]

/-! ## All phases -/

/-- The log gives each phase exactly its own messages. -/
def Fits : List (Phase P M ω) → List (P × M) → Prop
  | [], log => log = []
  | ph :: rest, log =>
    Collects ph (log.take ph.senders.card) ∧ Fits rest (log.drop ph.senders.card)

variable {phases : List (Phase P M ω)}

theorem fits_nil (phases : List (Phase P M ω)) : Fits phases ([] : List (P × M)) := by
  induction phases with
  | nil => rfl
  | cons ph rest ih => exact ⟨by simpa using collects_nil ph, by simpa using ih⟩

/-- How many messages the phases read. -/
def total (phases : List (Phase P M ω)) : Nat := (phases.map fun ph => ph.senders.card).sum

theorem Fits.length_le (h : Fits phases log) : log.length ≤ total phases := by
  induction phases generalizing log with
  | nil => simp [show log = [] from h]
  | cons ph rest ih =>
    have hrest := ih h.2
    rw [List.length_drop] at hrest
    simp only [total, List.map_cons, List.sum_cons] at hrest ⊢
    omega

theorem sentBy_take_drop (s : P) (log : List (P × M)) (n : Nat) :
    sentBy s (log.take n) ++ sentBy s (log.drop n) = sentBy s log := by
  rw [← sentBy_append, List.take_append_drop]

theorem Collects.prefix_rest {rest : List (Phase P M ω)} {n : Nat}
    (h : Collects ph (log.take n)) (hn : n = ph.senders.card) (hlen : n ≤ log.length)
    (hp : sentBy s log ++ [m] <+: expected (ph :: rest) s) :
    sentBy s (log.drop n) ++ [m] <+: expected rest s := by
  have hfull : (log.take n).length = ph.senders.card := by
    rw [List.length_take]
    omega
  rw [← sentBy_take_drop s log n] at hp
  unfold expected at hp
  rw [List.filterMap_cons] at hp
  by_cases hs : s ∈ ph.senders
  · rw [h.sentBy_of_mem (h.mem_of_full hfull hs)] at hp
    simpa [hs, expected, List.cons_prefix_cons] using hp
  · have hnot : s ∉ (log.take n).map Prod.fst := by
      intro hmem
      obtain ⟨x, hx, rfl⟩ := List.mem_map.mp hmem
      exact hs (h.mem x hx).1
    rw [sentBy_eq_nil hnot] at hp
    simpa [hs, expected] using hp

/-- A message that its recipient waits for, and that comes next from its sender, fits. -/
theorem Fits.concat (h : Fits phases log)
    (ha : Awaits (phases.map Phase.senders) (log.map Prod.fst) s)
    (hp : sentBy s log ++ [m] <+: expected phases s) : Fits phases (log ++ [(s, m)]) := by
  induction phases generalizing log with
  | nil => exact ha.elim
  | cons ph rest ih =>
    obtain ⟨hcol, hrest⟩ := h
    simp only [Awaits, List.map_cons, List.length_map] at ha
    split at ha
    · next hlt =>
      -- the first phase is still being read, and this is its message from `s`
      have htake : log.take ph.senders.card = log := List.take_of_length_le (by omega)
      rw [htake] at hcol
      have hmsg : m = ph.message s := by
        rw [sentBy_eq_nil ha.2] at hp
        unfold expected at hp
        simp only [List.filterMap_cons, ha.1, if_true, List.nil_append] at hp
        exact (List.cons_prefix_cons.mp hp).1
      have hlen : (log ++ [(s, m)]).length ≤ ph.senders.card := by
        rw [List.length_append, List.length_singleton]
        omega
      refine ⟨?_, ?_⟩
      · rw [List.take_of_length_le hlen, hmsg]
        exact hcol.concat ha.1 ha.2
      · rw [List.drop_of_length_le hlen]
        exact fits_nil rest
    · next hge =>
      have hlen : ph.senders.card ≤ log.length := by omega
      refine ⟨?_, ?_⟩
      · rwa [List.take_append_of_le_length hlen]
      · rw [List.drop_append_of_le_length hlen]
        exact ih hrest (by simpa using ha) (hcol.prefix_rest rfl hlen hp)

theorem Fits.awaits (h : Fits phases (log ++ [(s, m)])) :
    Awaits (phases.map Phase.senders) (log.map Prod.fst) s := by
  induction phases generalizing log with
  | nil => exact absurd h (by simp [Fits])
  | cons ph rest ih =>
    obtain ⟨hcol, hrest⟩ := h
    simp only [Awaits, List.map_cons, List.length_map]
    split
    · next hlt =>
      have hlen : (log ++ [(s, m)]).length ≤ ph.senders.card := by
        rw [List.length_append, List.length_singleton]
        omega
      rw [List.take_of_length_le hlen] at hcol
      have hnodup := hcol.nodup
      rw [List.map_append, List.nodup_append] at hnodup
      refine ⟨(hcol.mem (s, m) (by simp)).1, fun hs => ?_⟩
      exact hnodup.2.2 s hs s (by simp) rfl
    · next hge =>
      rw [List.drop_append_of_le_length (by omega)] at hrest
      simpa using ih hrest

/-! ## Computations that read their input in phases -/

/-- The computation reads the phases in turn, whatever the order of the messages within a
phase, and ends with `a`. A message of a later phase makes it fail. -/
def Follows (enc : P × M → ι) : List (Phase P M ω) → List ω → α → Proc ε ι ω α → Prop
  | [], fin, a, p => p.eval [] = some (.ok a, []) ∧ p.outs [] = fin
  | ph :: rest, fin, a, p =>
    (∀ log, Collects ph log → log.length < ph.senders.card →
      p.eval (log.map enc) = none ∧ p.outs (log.map enc) = ph.writes ∧
      ∀ ph' ∈ rest, ∀ s ∈ ph'.senders,
        ∃ e, p.eval (log.map enc ++ [enc (s, ph'.message s)]) = some (.error e, [])) ∧
    (∀ log, Collects ph log → log.length = ph.senders.card →
      ∃ q, (∀ t, p.eval (log.map enc ++ t) = q.eval t ∧
        p.outs (log.map enc ++ t) = ph.writes ++ q.outs t) ∧ Follows enc rest fin a q)

/-- The computation reads the phases in turn and ends with `a`, as long as it gets no message
out of its phase. -/
def Reads (enc : P × M → ι) : List (Phase P M ω) → List ω → α → Proc ε ι ω α → Prop
  | [], fin, a, p => p.eval [] = some (.ok a, []) ∧ p.outs [] = fin
  | ph :: rest, fin, a, p =>
    (∀ log, Collects ph log → log.length < ph.senders.card →
      p.eval (log.map enc) = none ∧ p.outs (log.map enc) = ph.writes) ∧
    (∀ log, Collects ph log → log.length = ph.senders.card →
      ∃ q, (∀ t, p.eval (log.map enc ++ t) = q.eval t ∧
        p.outs (log.map enc ++ t) = ph.writes ++ q.outs t) ∧ Reads enc rest fin a q)

variable {enc : P × M → ι} {fin : List ω} {a : α} {p : Proc ε ι ω α}

theorem Follows.reads (hf : Follows enc phases fin a p) : Reads enc phases fin a p := by
  induction phases generalizing p with
  | nil => exact hf
  | cons ph rest ih =>
    refine ⟨fun log hcol hlt => ?_, fun log hcol hlen => ?_⟩
    · obtain ⟨hwait, houts, -⟩ := hf.1 log hcol hlt
      exact ⟨hwait, houts⟩
    · obtain ⟨q, hq, hfq⟩ := hf.2 log hcol hlen
      exact ⟨q, hq, ih hfq⟩

/-- Everything the computation writes when it is given all its messages. -/
def written (phases : List (Phase P M ω)) (fin : List ω) : List ω :=
  (phases.map Phase.writes).flatten ++ fin

theorem Reads.outs_le_written (hf : Reads enc phases fin a p) (h : Fits phases log) :
    p.outs (log.map enc) <+: written phases fin := by
  induction phases generalizing log p with
  | nil =>
    obtain rfl : log = [] := h
    rw [List.map_nil, hf.2]
    exact List.prefix_refl _
  | cons ph rest ih =>
    obtain ⟨hcol, hrest⟩ := h
    unfold written
    rw [List.map_cons, List.flatten_cons, List.append_assoc]
    by_cases hlt : log.length < ph.senders.card
    · rw [List.take_of_length_le (by omega)] at hcol
      rw [(hf.1 log hcol hlt).2]
      exact List.prefix_append _ _
    · have hfull : (log.take ph.senders.card).length = ph.senders.card := by
        rw [List.length_take]
        omega
      obtain ⟨q, hq, hfq⟩ := hf.2 _ hcol hfull
      rw [← List.take_append_drop ph.senders.card log, List.map_append, (hq _).2]
      exact (List.prefix_append_right_inj _).mpr (ih hfq hrest)

theorem Reads.eval_of_lt (hf : Reads enc phases fin a p) (h : Fits phases log)
    (hlt : log.length < total phases) : p.eval (log.map enc) = none := by
  induction phases generalizing log p with
  | nil => simp [total] at hlt
  | cons ph rest ih =>
    obtain ⟨hcol, hrest⟩ := h
    by_cases hlt' : log.length < ph.senders.card
    · rw [List.take_of_length_le (by omega)] at hcol
      exact (hf.1 log hcol hlt').1
    · have hfull : (log.take ph.senders.card).length = ph.senders.card := by
        rw [List.length_take]
        omega
      obtain ⟨q, hq, hfq⟩ := hf.2 _ hcol hfull
      rw [← List.take_append_drop ph.senders.card log, List.map_append, (hq _).1]
      refine ih hfq hrest ?_
      rw [List.length_drop]
      simp only [total, List.map_cons, List.sum_cons] at hlt ⊢
      omega

theorem Reads.eval_of_full (hf : Reads enc phases fin a p) (h : Fits phases log)
    (heq : log.length = total phases) : p.eval (log.map enc) = some (.ok a, []) := by
  induction phases generalizing log p with
  | nil =>
    obtain rfl : log = [] := h
    exact hf.1
  | cons ph rest ih =>
    obtain ⟨hcol, hrest⟩ := h
    have hsum : log.length = ph.senders.card + total rest := heq
    have hfull : (log.take ph.senders.card).length = ph.senders.card := by
      rw [List.length_take]
      omega
    obtain ⟨q, hq, hfq⟩ := hf.2 _ hcol hfull
    rw [← List.take_append_drop ph.senders.card log, List.map_append, (hq _).1]
    refine ih hfq hrest ?_
    rw [List.length_drop]
    omega

/-- A message that comes next from its sender but is not waited for is a message of a
later phase, and the computation fails on it. -/
theorem Follows.eval_of_not_awaits (hf : Follows enc phases fin a p) (h : Fits phases log)
    (hna : ¬ Awaits (phases.map Phase.senders) (log.map Prod.fst) s)
    (hp : sentBy s log ++ [m] <+: expected phases s) :
    ∃ e, p.eval (log.map enc ++ [enc (s, m)]) = some (.error e, []) := by
  induction phases generalizing log p with
  | nil =>
    have hlen := hp.length_le
    simp [expected] at hlen
  | cons ph rest ih =>
    obtain ⟨hcol, hrest⟩ := h
    simp only [Awaits, List.map_cons, List.length_map] at hna
    split at hna
    · next hlt =>
      rw [List.take_of_length_le (by omega)] at hcol
      have hlater : [m] <+: expected rest s := by
        unfold expected at hp ⊢
        rw [List.filterMap_cons] at hp
        by_cases hs : s ∈ ph.senders
        · have hmem : s ∈ log.map Prod.fst := by
            by_contra hn
            exact hna ⟨hs, hn⟩
          rw [hcol.sentBy_of_mem hmem] at hp
          simpa [hs, List.cons_prefix_cons] using hp
        · have hnot : s ∉ log.map Prod.fst := by
            intro hmem
            obtain ⟨x, hx, rfl⟩ := List.mem_map.mp hmem
            exact hs (hcol.mem x hx).1
          rw [sentBy_eq_nil hnot] at hp
          simpa [hs] using hp
      have hmem : m ∈ expected rest s := hlater.subset List.mem_cons_self
      obtain ⟨ph', hph', hsome⟩ := List.mem_filterMap.mp hmem
      split at hsome
      · next hs =>
        obtain rfl := Option.some.inj hsome
        exact (hf.1 log hcol hlt).2.2 ph' hph' s hs
      · simp at hsome
    · next hge =>
      have hlen : ph.senders.card ≤ log.length := by omega
      have hfull : (log.take ph.senders.card).length = ph.senders.card := by
        rw [List.length_take]
        omega
      obtain ⟨q, hq, hfq⟩ := hf.2 _ hcol hfull
      have hna' : ¬ Awaits (rest.map Phase.senders) ((log.drop ph.senders.card).map Prod.fst) s := by
        simpa using hna
      obtain ⟨e, he⟩ := ih hfq hrest hna' (hcol.prefix_rest rfl hlen hp)
      refine ⟨e, ?_⟩
      have hsplit : log.map enc ++ [enc (s, m)] =
          (log.take ph.senders.card).map enc ++
            ((log.drop ph.senders.card).map enc ++ [enc (s, m)]) := by
        rw [← List.append_assoc, ← List.map_append, List.take_append_drop]
      rw [hsplit, (hq _).1, he]

/-! ## Building blocks -/

theorem Follows.of_collect {σ : Type} (step : σ → ι → Except ε σ) (s₀ : σ)
    (f : σ → Proc ε ι ω α) {ph : Phase P M ω}
    (hbody : ∀ h, p.eval h = (Proc.collect step ph.senders.card s₀ >>= f).eval h ∧
      p.outs h = ph.writes ++ (Proc.collect step ph.senders.card s₀ >>= f).outs h)
    (haccept : ∀ log, Collects ph log → ∃ s, (log.map enc).foldlM step s₀ = .ok s)
    (hfull : ∀ log, Collects ph log → log.length = ph.senders.card →
      ∀ s, (log.map enc).foldlM step s₀ = .ok s → Follows enc phases fin a (f s))
    (hlater : ∀ log, Collects ph log → log.length < ph.senders.card →
      ∀ s, (log.map enc).foldlM step s₀ = .ok s → ∀ ph' ∈ phases, ∀ x ∈ ph'.senders,
        ∃ e, step s (enc (x, ph'.message x)) = .error e) :
    Follows enc (ph :: phases) fin a p := by
  refine ⟨?_, ?_⟩
  · intro log hcol hlt
    obtain ⟨s, hs⟩ := haccept log hcol
    have hlen : (log.map enc).length < ph.senders.card := by rwa [List.length_map]
    have hwait : (Proc.collect step ph.senders.card s₀ : Proc ε ι ω σ).eval (log.map enc) = none :=
      Proc.eval_collect_of_lt hlen hs
    refine ⟨?_, ?_, ?_⟩
    · rw [(hbody _).1, Proc.eval_bind_of_none hwait]
    · rw [(hbody _).2, Proc.outs_bind_of_none hwait, Proc.outs_collect, List.append_nil]
    · intro ph' hph' x hx
      obtain ⟨e, he⟩ := hlater log hcol hlt s hs ph' hph' x hx
      refine ⟨e, ?_⟩
      rw [(hbody _).1, Proc.eval_bind_of_error (Proc.eval_collect_of_error hlen hs he)]
  · intro log hcol hlen
    obtain ⟨s, hs⟩ := haccept log hcol
    refine ⟨f s, fun t => ?_, hfull log hcol hlen s hs⟩
    have hdone : (Proc.collect step ph.senders.card s₀ : Proc ε ι ω σ).eval (log.map enc ++ t) =
        some (.ok s, t) :=
      Proc.eval_collect_ok_iff.mpr ⟨log.map enc, rfl, by rw [List.length_map, hlen], hs⟩
    rw [(hbody _).1, (hbody _).2, Proc.eval_bind_of_ok hdone, Proc.outs_bind_of_ok hdone,
      Proc.outs_collect, List.nil_append]
    exact ⟨rfl, rfl⟩

theorem Follows.emit {o : ω} (hf : Follows enc (ph :: phases) fin a p) :
    Follows enc ({ ph with writes := o :: ph.writes } :: phases) fin a (.emit o p) := by
  refine ⟨?_, ?_⟩
  · intro log hcol hlt
    obtain ⟨hwait, houts, hlater⟩ := hf.1 log ⟨hcol.nodup, hcol.mem⟩ hlt
    exact ⟨hwait, congrArg (o :: ·) houts, hlater⟩
  · intro log hcol hlen
    obtain ⟨q, hq, hfq⟩ := hf.2 log ⟨hcol.nodup, hcol.mem⟩ hlen
    exact ⟨q, fun t => ⟨(hq t).1, congrArg (o :: ·) (hq t).2⟩, hfq⟩

theorem Follows.of_input {σ : Type} (step : ι → Except ε σ) (f : σ → Proc ε ι ω α) {x : σ}
    (hph : ph.senders = {s}) (hw : ph.writes = []) (hstep : step (enc (s, ph.message s)) = .ok x)
    (hrest : Follows enc phases fin a (f x))
    (hlater : ∀ ph' ∈ phases, ∀ y ∈ ph'.senders, ∃ e, step (enc (y, ph'.message y)) = .error e) :
    Follows enc (ph :: phases) fin a (.recv fun i => Proc.lift (step i) >>= f) := by
  have hcard : ph.senders.card = 1 := by rw [hph, Finset.card_singleton]
  refine ⟨?_, ?_⟩
  · intro log hcol hlt
    obtain rfl : log = [] := List.eq_nil_of_length_eq_zero (by omega)
    refine ⟨rfl, hw.symm, ?_⟩
    intro ph' hph' y hy
    obtain ⟨e, he⟩ := hlater ph' hph' y hy
    refine ⟨e, ?_⟩
    rw [List.map_nil, List.nil_append, Proc.eval_recv_cons, he]
    rfl
  · intro log hcol hlen
    obtain ⟨y, rfl⟩ := List.length_eq_one_iff.mp (hlen.trans hcard)
    obtain ⟨hy, hm⟩ := hcol.mem y List.mem_cons_self
    rw [hph, Finset.mem_singleton] at hy
    refine ⟨f x, fun t => ?_, hrest⟩
    have henc : enc y = enc (s, ph.message s) := by rw [← hy, ← hm]
    rw [List.map_singleton, List.singleton_append, Proc.eval_recv_cons, Proc.outs_recv_cons, henc,
      hstep, hw]
    exact ⟨rfl, rfl⟩

/-- A loop that reads the first phase of a computation which may take a message of a later
phase for one of this. -/
theorem Reads.of_collect {σ : Type} (step : σ → ι → Except ε σ) (s₀ : σ)
    (f : σ → Proc ε ι ω α) {ph : Phase P M ω}
    (hbody : ∀ h, p.eval h = (Proc.collect step ph.senders.card s₀ >>= f).eval h ∧
      p.outs h = ph.writes ++ (Proc.collect step ph.senders.card s₀ >>= f).outs h)
    (haccept : ∀ log, Collects ph log → ∃ s, (log.map enc).foldlM step s₀ = .ok s ∧
      (log.length = ph.senders.card → Reads enc phases fin a (f s))) :
    Reads enc (ph :: phases) fin a p := by
  refine ⟨fun log hcol hlt => ?_, fun log hcol hlen => ?_⟩
  · obtain ⟨s, hs, -⟩ := haccept log hcol
    have hlen : (log.map enc).length < ph.senders.card := by rwa [List.length_map]
    have hwait : (Proc.collect step ph.senders.card s₀ : Proc ε ι ω σ).eval (log.map enc) = none :=
      Proc.eval_collect_of_lt hlen hs
    rw [(hbody _).1, (hbody _).2, Proc.eval_bind_of_none hwait, Proc.outs_bind_of_none hwait,
      Proc.outs_collect, List.append_nil]
    exact ⟨rfl, rfl⟩
  · obtain ⟨s, hs, hrest⟩ := haccept log hcol
    refine ⟨f s, fun t => ?_, hrest hlen⟩
    have hdone : (Proc.collect step ph.senders.card s₀ : Proc ε ι ω σ).eval (log.map enc ++ t) =
        some (.ok s, t) :=
      Proc.eval_collect_ok_iff.mpr ⟨log.map enc, rfl, by rw [List.length_map, hlen], hs⟩
    rw [(hbody _).1, (hbody _).2, Proc.eval_bind_of_ok hdone, Proc.outs_bind_of_ok hdone,
      Proc.outs_collect, List.nil_append]
    exact ⟨rfl, rfl⟩

theorem Reads.of_input {ph : Phase P M ω} {f : ι → Proc ε ι ω α} (hph : ph.senders = {s})
    (hw : ph.writes = []) (hrest : Reads enc phases fin a (f (enc (s, ph.message s)))) :
    Reads enc (ph :: phases) fin a (.recv f) := by
  have hcard : ph.senders.card = 1 := by rw [hph, Finset.card_singleton]
  refine ⟨fun log hcol hlt => ?_, fun log hcol hlen => ?_⟩
  · obtain rfl : log = [] := List.eq_nil_of_length_eq_zero (by omega)
    exact ⟨rfl, hw.symm⟩
  · obtain ⟨y, rfl⟩ := List.length_eq_one_iff.mp (hlen.trans hcard)
    obtain ⟨hy, hm⟩ := hcol.mem y List.mem_cons_self
    rw [hph, Finset.mem_singleton] at hy
    have henc : enc y = enc (s, ph.message s) := by rw [← hy, ← hm]
    refine ⟨f (enc (s, ph.message s)), fun t => ?_, hrest⟩
    rw [List.map_singleton, List.singleton_append, Proc.eval_recv_cons, Proc.outs_recv_cons, henc, hw]
    exact ⟨rfl, rfl⟩

theorem Follows.bind_ret {β : Type} {b : β} {f : α → Proc ε ι ω β}
    (hf : Follows enc phases fin a p) (hb : f a = .ret b) : Follows enc phases fin b (p >>= f) := by
  induction phases generalizing p with
  | nil =>
    refine ⟨?_, ?_⟩
    · rw [Proc.eval_bind_of_ok hf.1, hb, Proc.eval_ret]
    · rw [Proc.outs_bind_of_ok hf.1, hb, Proc.outs_ret, List.append_nil]
      exact hf.2
  | cons ph rest ih =>
    refine ⟨?_, ?_⟩
    · intro log hcol hlt
      obtain ⟨hwait, houts, hlater⟩ := hf.1 log hcol hlt
      refine ⟨Proc.eval_bind_of_none hwait f, ?_, ?_⟩
      · rw [Proc.outs_bind_of_none hwait, houts]
      · intro ph' hph' x hx
        obtain ⟨e, he⟩ := hlater ph' hph' x hx
        exact ⟨e, Proc.eval_bind_of_error he f⟩
    · intro log hcol hlen
      obtain ⟨q, hq, hfq⟩ := hf.2 log hcol hlen
      refine ⟨q >>= f, fun t => ?_, ih hfq⟩
      rw [Proc.eval_bind, Proc.eval_bind, Proc.outs_bind, Proc.outs_bind, (hq t).1, (hq t).2,
        List.append_assoc]
      exact ⟨rfl, rfl⟩

end Phases
