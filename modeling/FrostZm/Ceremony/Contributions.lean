import FrostZm.Ceremony.Openings

/-!
# Who contributes to a key

A party that has ended well has heard everyone else in round 1. What it adds up there comes from
the parties that follow the protocol and from what the corrupt ones chose to send it.
-/

open FrostChannel Phases

set_option linter.unusedSectionVars false

variable {F G Rng : Type} [Field F] [DecidableEq F] [Ord F] [Std.TransOrd F] [Std.LawfulEqOrd F]
  [AddCommGroup G] [Module F G]

/-- The parties that may send anything. -/
def Setting.corruptIds (w : Setting) : Finset UInt16 := w.ids ∩ w.corrupt

def Setting.honestIds (w : Setting) : Finset UInt16 := w.ids \ w.corrupt

theorem Setting.mem_honestIds {w : Setting} {q : UInt16} :
    q ∈ w.honestIds ↔ q ∈ w.ids ∧ q ∉ w.corrupt := Finset.mem_sdiff

theorem Setting.sum_ids {A : Type} [AddCommMonoid A] (w : Setting) (g : UInt16 → A) :
    ∑ q ∈ w.honestIds, g q + ∑ q ∈ w.corruptIds, g q = ∑ q ∈ w.ids, g q := by
  rw [honestIds, corruptIds, add_comm]
  exact Finset.sum_inter_add_sum_sdiff w.ids w.corrupt g

namespace Ceremony

variable {core : FrostCore F G Rng} {α β : Type} [Inhabited α] {n minSigners p q : UInt16}
  {decode : Bytes → Option α} {project : α → Round1Package F G} {w : Setting}
  {body : UInt16 → Ceremony β} {acts : List Net.Action} {net : Net β} {b : β}
  {property : (q : UInt16) → Opening core decode project n minSigners q → Prop}
  {f : UInt16 → BTreeMap (Identifier F) α → KeyPackage F G × PublicKeyPackage F G → Ceremony β}
  {l₁ l₂ log : List (UInt16 × Bytes)} {keys : KeyPackage F G × PublicKeyPackage F G}

/-- Each party that follows the protocol fails or goes through its rounds. -/
def AllOpen (w : Setting) (property : (q : UInt16) → Opening core decode project n minSigners q → Prop)
    (f : UInt16 → BTreeMap (Identifier F) α → KeyPackage F G × PublicKeyPackage F G → Ceremony β)
    (body : UInt16 → Ceremony β) : Prop :=
  ∀ q ∈ w.honestIds, Opens core decode project n minSigners q (property q) (f q) (body q)

/-- What `g` makes of the first message of `q` to `p`. -/
def receivedFrom {A : Type} [Zero A] (decode : Bytes → Option α) (g : α → A) (net : Net β)
    (q p : UInt16) : A :=
  ((firstTo net q p).map fun m => g ((decode m).getD default)).getD 0

/-- What a party that has ended well was given, and the rounds it went through. -/
structure Finished (net : Net β) (o : Opening core decode project n minSigners p)
    (f : BTreeMap (Identifier F) α → KeyPackage F G × PublicKeyPackage F G → Ceremony β)
    (l₁ l₂ log : List (UInt16 × Bytes)) (keys : KeyPackage F G × PublicKeyPackage F G) (b : β) :
    Prop where
  fed : net.fed p = l₁ ++ (l₂ ++ log)
  roundsOver : RoundsOver o l₁ l₂ keys
  others : ∀ m ∈ l₁, m.1 ≠ p
  ending : ∃ rest, (f (stored decode l₁) keys).eval (log.map frame) = some (.ok b, rest)

theorem AllOpen.finished (hopen : AllOpen w property f body) (hrun : Net.run w body acts = some net)
    (hp : p ∈ w.honestIds) (hout : (net.party p).outcome = some (.ok b)) :
    ∃ o l₁ l₂ log keys, property p o ∧ body p = o.rounds (f p) ∧
      Finished net o (f p) l₁ l₂ log keys b := by
  rcases hopen p hp with ⟨e, hfail⟩ | ⟨o, ho, hbody⟩
  · rw [Net.outcome_eq hrun, hfail] at hout
    nomatch hout
  · obtain ⟨l₁, l₂, log, keys, rest, hfed, hover, hothers, hend⟩ :=
      Opening.finished hrun hbody hout
    exact ⟨o, l₁, l₂, log, keys, ho, hbody, hfed, hover, hothers, rest, hend⟩

theorem Finished.exists_first (doc : core.Documented) {o : Opening core decode project n minSigners p}
    {f : BTreeMap (Identifier F) α → KeyPackage F G × PublicKeyPackage F G → Ceremony β}
    (h : Finished net o f l₁ l₂ log keys b) (hp : p ∈ upTo n) (hq : q ∈ upTo n) (hne : q ≠ p) :
    ∃ m, firstTo net q p = some m := by
  have hmem : q ∈ (l₁.map Prod.fst).toFinset := by
    rw [h.roundsOver.senders_eq doc h.others hp]
    exact Finset.mem_erase.mpr ⟨hne, List.mem_toFinset.mpr hq⟩
  obtain ⟨m, hm, rfl⟩ := List.mem_map.mp (List.mem_toFinset.mp hmem)
  exact ⟨m.2, firstTo_of_mem h.fed (h.roundsOver.nodup₁ doc h.others) hm⟩

section Runs

variable (doc : core.Documented) (hids : w.ids = (upTo n).toFinset)
  (hopen : AllOpen w property f body) (hrun : Net.run w body acts = some net)
  {o : Opening core decode project n minSigners p}
  (h : Finished net o (f p) l₁ l₂ log keys b) (hp : p ∈ w.honestIds)
include doc hids hopen hrun h hp

/-- Another party that follows the protocol has begun its rounds, and what it sent first is its
package. -/
theorem Finished.first_eq (hq : q ∈ w.honestIds) (hne : q ≠ p) :
    ∃ o' : Opening core decode project n minSigners q,
      property q o' ∧ firstTo net q p = some o'.r1Bytes := by
  obtain ⟨hpid, -⟩ := Setting.mem_honestIds.mp hp
  obtain ⟨hqid, hqc⟩ := Setting.mem_honestIds.mp hq
  rw [hids, List.mem_toFinset] at hpid hqid
  obtain ⟨m, hm⟩ := h.exists_first doc hpid hqid hne
  obtain ⟨o', ho', -, rfl⟩ := Opens.firstTo hrun hqc (hopen q hq) hm
  exact ⟨o', ho', hm⟩

/-- If one party ends well, every party that follows the protocol has begun its rounds. -/
theorem Finished.exists_opening (ho : property p o) (hq : q ∈ w.honestIds) :
    ∃ o' : Opening core decode project n minSigners q, property q o' := by
  by_cases hne : q = p
  · subst hne
    exact ⟨o, ho⟩
  · obtain ⟨o', ho', -⟩ := h.first_eq doc hids hopen hrun hp hq hne
    exact ⟨o', ho'⟩

theorem Finished.sum_eq {A : Type} [AddCommMonoid A] (g : α → A) (value : UInt16 → A)
    (hvalue : ∀ q ∈ w.honestIds, ∀ o' : Opening core decode project n minSigners q,
      property q o' → g o'.own = value q) (ho : property p o) :
    g o.own + (l₁.map fun m => g ((decode m.2).getD default)).sum =
      ∑ q ∈ w.honestIds, value q + ∑ q ∈ w.corruptIds, receivedFrom decode g net q p := by
  obtain ⟨hpid, -⟩ := Setting.mem_honestIds.mp hp
  have hpn : p ∈ upTo n := by rwa [hids, List.mem_toFinset] at hpid
  have hothers : ∀ q ∈ w.honestIds.erase p, receivedFrom decode g net q p = value q := by
    intro q hq
    obtain ⟨hne, hq⟩ := Finset.mem_erase.mp hq
    obtain ⟨o', ho', hfirst⟩ := h.first_eq doc hids hopen hrun hp hq hne
    rw [receivedFrom, hfirst, Option.map_some, Option.getD_some, o'.decoded, Option.getD_some]
    exact hvalue q hq o' ho'
  have hself : receivedFrom decode g net p p = 0 := by
    have hnone : firstTo net p p = none := by
      rw [firstTo, List.head?_eq_none_iff]
      refine sentBy_eq_nil fun hmem => ?_
      obtain ⟨m, hm, hfst⟩ := List.mem_map.mp hmem
      obtain rfl := hfst
      exact (Net.mem_fed hrun (m := m.2) hm).2.2 rfl
    rw [receivedFrom, hnone]
    rfl
  calc g o.own + (l₁.map fun m => g ((decode m.2).getD default)).sum
      = value p + ∑ q ∈ w.ids.erase p, receivedFrom decode g net q p := by
        rw [hvalue p hp o ho, hids]
        exact congrArg _ (h.roundsOver.sum_firsts doc h.others hpn h.fed fun m =>
          g ((decode m).getD default))
    _ = value p + ∑ q ∈ w.ids, receivedFrom decode g net q p := by
        rw [← Finset.add_sum_erase _ _ hpid, hself, zero_add]
    _ = value p + ∑ q ∈ w.honestIds.erase p, receivedFrom decode g net q p +
          ∑ q ∈ w.corruptIds, receivedFrom decode g net q p := by
        rw [← w.sum_ids, ← Finset.add_sum_erase _ _ hp, hself, zero_add, add_assoc]
    _ = ∑ q ∈ w.honestIds, value q + ∑ q ∈ w.corruptIds, receivedFrom decode g net q p := by
        rw [Finset.sum_congr rfl hothers, Finset.add_sum_erase _ _ hp]

end Runs

/-! ## The key -/

/-- The commitment to the constant term of `q` that `p` was given. -/
def termTo (decode : Bytes → Option α) (project : α → Round1Package F G) (net : Net β)
    (q p : UInt16) : G :=
  receivedFrom decode (fun a => (project a).commitment.headD 0) net q p

theorem Opening.head_own (o : Opening core decode project n minSigners p) :
    (project o.own).commitment.headD 0 = o.secret1.coefficients.headD 0 • core.generator := by
  rw [o.published, o.committed]
  cases o.secret1.coefficients with
  | nil => exact (zero_smul F _).symm
  | cons a l => rfl

/-- The group key is made of the constant terms of the honest parties and of what the corrupt
ones have committed to. -/
theorem Finished.verifyingKey_eq (doc : core.Documented) (hids : w.ids = (upTo n).toFinset)
    (hopen : AllOpen w property f body) (hrun : Net.run w body acts = some net)
    {o : Opening core decode project n minSigners p} (h : Finished net o (f p) l₁ l₂ log keys b)
    (hp : p ∈ w.honestIds) (ho : property p o) (term : UInt16 → F)
    (hterm : ∀ q ∈ w.honestIds, ∀ o' : Opening core decode project n minSigners q,
      property q o' → o'.secret1.coefficients.headD 0 = term q) :
    keys.2.verifyingKey = (∑ q ∈ w.honestIds, term q) • core.generator +
      ∑ q ∈ w.corruptIds, termTo decode project net q p := by
  have hsum := h.sum_eq doc hids hopen hrun hp (fun a => (project a).commitment.headD 0)
    (fun q => term q • core.generator)
    (fun q hq o' ho' => o'.head_own.trans (by rw [hterm q hq o' ho'])) ho
  rw [h.roundsOver.verifyingKey_eq doc h.others, Finset.sum_smul, ← o.published]
  exact hsum

/-! ## Key import -/

/-- The constant term that a party of a key import owes. -/
def owedTerm (seedHolder n : UInt16) (secret : F) (q : UInt16) : F :=
  if q = seedHolder then deriveConstantTerm secret n else 1

theorem sum_owedTerm {seedHolder : UInt16} (hmem : seedHolder ∈ upTo n) (secret : F) :
    ∑ q ∈ (upTo n).toFinset, owedTerm seedHolder n secret q = secret := by
  have hothers : ∀ q ∈ (upTo n).toFinset.erase seedHolder, owedTerm seedHolder n secret q = 1 :=
    fun q hq => if_neg (Finset.mem_erase.mp hq).1
  rw [← Finset.add_sum_erase _ _ (List.mem_toFinset.mpr hmem), Finset.sum_congr rfl hothers,
    Finset.sum_const, card_erase_upTo hmem, nsmul_one, owedTerm, if_pos rfl, deriveConstantTerm,
    subOnes_eq, sub_add_cancel]

theorem sum_owedTerm_honest {seedHolder : UInt16} (hids : w.ids = (upTo n).toFinset)
    (hholder : seedHolder ∈ w.honestIds) (secret : F) :
    ∑ q ∈ w.honestIds, owedTerm seedHolder n secret q = secret - w.corruptIds.card := by
  obtain ⟨hmem, hnot⟩ := Setting.mem_honestIds.mp hholder
  rw [hids, List.mem_toFinset] at hmem
  have hones : ∀ q ∈ w.corruptIds, owedTerm seedHolder n secret q = 1 := by
    intro q hq
    refine if_neg ?_
    rintro rfl
    exact hnot (Finset.mem_inter.mp hq).2
  rw [eq_sub_iff_add_eq, ← nsmul_one, ← Finset.sum_const, ← Finset.sum_congr rfl hones, w.sum_ids,
    hids, sum_owedTerm hmem]

theorem Finished.verifyingKey_eq_iff (doc : core.Documented) (hids : w.ids = (upTo n).toFinset)
    (hopen : AllOpen w property f body) (hrun : Net.run w body acts = some net)
    {o : Opening core decode project n minSigners p} (h : Finished net o (f p) l₁ l₂ log keys b)
    (hp : p ∈ w.honestIds) (ho : property p o) {seedHolder : UInt16} (secret : F)
    (hholder : seedHolder ∈ w.honestIds)
    (hterm : ∀ q ∈ w.honestIds, ∀ o' : Opening core decode project n minSigners q,
      property q o' → o'.secret1.coefficients.headD 0 = owedTerm seedHolder n secret q) :
    keys.2.verifyingKey = secret • core.generator ↔
      ∑ q ∈ w.corruptIds, termTo decode project net q p = w.corruptIds.card • core.generator := by
  rw [h.verifyingKey_eq doc hids hopen hrun hp ho _ hterm, sum_owedTerm_honest hids hholder, sub_smul,
    Nat.cast_smul_eq_nsmul, sub_add_eq_add_sub, sub_eq_iff_eq_add, add_right_inj]

/-- If `p` has ended well, then it has stored the key of the secret, and the constant terms
that it was sent sum to the secret. -/
def ImportSound (core : FrostCore F G Rng) (decode : Bytes → Option α)
    (project : α → Round1Package F G) (w : Setting) (net : Net β) (term : UInt16 → F)
    (secret : Option F) (storedKeys : β → Option (KeyPackage F G × PublicKeyPackage F G))
    (p : UInt16) : Prop :=
  ∀ out, (net.party p).outcome = some (.ok out) → ∃ s keys, secret = some s ∧
    storedKeys out = some keys ∧ keys.2.verifyingKey = s • core.generator ∧
    (∑ q ∈ w.honestIds, term q) • core.generator +
      ∑ q ∈ w.corruptIds, termTo decode project net q p = s • core.generator

/-- If `p` has ended well, then the corrupt parties' commitments to their constant terms, as
they were sent to `p`, sum to one generator for each of them. -/
def BringsOnes (core : FrostCore F G Rng) (decode : Bytes → Option α)
    (project : α → Round1Package F G) (w : Setting) (net : Net β) (p : UInt16) : Prop :=
  ∀ out, (net.party p).outcome = some (.ok out) →
    ∑ q ∈ w.corruptIds, termTo decode project net q p = w.corruptIds.card • core.generator

theorem importSound_iff (doc : core.Documented) (hids : w.ids = (upTo n).toFinset)
    (hrun : Net.run w body acts = some net) {seedHolder : UInt16} (hholder : seedHolder ∈ w.honestIds)
    {secret : Option F} {term : UInt16 → F}
    {storedKeys : β → Option (KeyPackage F G × PublicKeyPackage F G)}
    (hopen : AllOpen w (fun q (o : Opening core decode project n minSigners q) =>
      o.secret1.coefficients.headD 0 = term q ∧ (q = seedHolder → secret.isSome)) f body)
    (hterm : ∀ s, secret = some s → ∀ q, term q = owedTerm seedHolder n s q)
    (hstores : ∀ q, Stores storedKeys (f q)) (hp : p ∈ w.honestIds) :
    ImportSound core decode project w net term secret storedKeys p ↔
      BringsOnes core decode project w net p := by
  refine forall_congr' fun out => forall_congr' fun hout => ?_
  obtain ⟨o, l₁, l₂, log, keys, ho, -, hfin⟩ := hopen.finished hrun hp hout
  obtain ⟨o', -, hsecret⟩ := hfin.exists_opening doc hids hopen hrun hp ho hholder
  obtain ⟨s, rfl⟩ := Option.isSome_iff_exists.mp (hsecret rfl)
  obtain ⟨rest, hend⟩ := hfin.ending
  have hkey := hfin.verifyingKey_eq doc hids hopen hrun hp ho term
    (fun q _ o' ho' => ho'.1)
  have hiff := hfin.verifyingKey_eq_iff doc hids hopen hrun hp ho s hholder
    (fun q _ o' ho' => ho'.1.trans (hterm s rfl q))
  constructor
  · rintro ⟨s', keys', hs', hstored, hvk, -⟩
    obtain rfl := Option.some.inj hs'
    obtain rfl := Option.some.inj ((hstores p _ _ _ _ _ hend).symm.trans hstored)
    exact hiff.mp hvk
  · intro hones
    have hvk := hiff.mpr hones
    exact ⟨s, keys, rfl, hstores p _ _ _ _ _ hend, hvk, hkey.symm.trans hvk⟩

end Ceremony
