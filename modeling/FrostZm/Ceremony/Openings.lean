import FrostZm.Ceremony.Reshare
import FrostZm.Ceremony.Transcript

/-!
# How the sessions begin

Before its rounds a session can only fail. What it has in the end follows from what it began
with and from the messages it was given.
-/

open FrostChannel Phases

set_option linter.unusedSectionVars false

variable {F G Rng : Type} [Field F] [DecidableEq F] [Ord F] [Std.TransOrd F] [Std.LawfulEqOrd F]
  [AddCommGroup G] [Module F G]

namespace Ceremony

variable {core : FrostCore F G Rng} {α β : Type} [Inhabited α] {n minSigners p : UInt16} {rng : Rng}

/-! ## The openings -/

/-- A session fails, or it goes through the rounds of an opening with a property. -/
def Opens (core : FrostCore F G Rng) (decode : Bytes → Option α)
    (project : α → Round1Package F G) (n minSigners p : UInt16)
    (property : Opening core decode project n minSigners p → Prop)
    (f : BTreeMap (Identifier F) α → KeyPackage F G × PublicKeyPackage F G → Ceremony β)
    (body : Ceremony β) : Prop :=
  (∃ e, body = .fail e) ∨ ∃ o : Opening core decode project n minSigners p,
    property o ∧ body = o.rounds f

section Opens

variable {decode : Bytes → Option α} {project : α → Round1Package F G}
  {property : Opening core decode project n minSigners p → Prop}
  {f : BTreeMap (Identifier F) α → KeyPackage F G × PublicKeyPackage F G → Ceremony β}

theorem Opens.lift {γ : Type} {x : Result γ} {g : γ → Ceremony β}
    (h : ∀ a, x = .ok a → Opens core decode project n minSigners p property f (g a)) :
    Opens core decode project n minSigners p property f (liftM x >>= g) := by
  cases x with
  | error e => exact .inl ⟨e, rfl⟩
  | ok a => exact h a rfl

theorem Opens.mono {property' : Opening core decode project n minSigners p → Prop}
    {body : Ceremony β} (himp : ∀ o, property o → property' o)
    (h : Opens core decode project n minSigners p property f body) :
    Opens core decode project n minSigners p property' f body := by
  rcases h with hfail | ⟨o, ho, hbody⟩
  · exact .inl hfail
  · exact .inr ⟨o, himp o ho, hbody⟩

end Opens

/-- The keys that a session ends with are those of its rounds. -/
def Stores (storedKeys : β → Option (KeyPackage F G × PublicKeyPackage F G))
    (f : BTreeMap (Identifier F) α → KeyPackage F G × PublicKeyPackage F G → Ceremony β) : Prop :=
  ∀ r1Map keys log out rest, (f r1Map keys).eval log = some (.ok out, rest) →
    storedKeys out = some keys

theorem part1_opens (doc : core.Documented) {idMap : IdMap} (hmap : buildIdMap core n = .ok idMap)
    {ident : Identifier F} (hident : Identifier.tryFrom p = some ident)
    {s : Round1SecretPackage F G} {package : Round1Package F G}
    (h : core.part1 ident n minSigners rng = .ok (s, package)) {decode : Bytes → Option α}
    (project : α → Round1Package F G) {data : Bytes} {own : α} (hdecode : decode data = some own)
    (hproject : project own = package) :
    (2 ≤ minSigners ∧ minSigners ≤ n) ∧ ∃ o : Opening core decode project n minSigners p,
      o.own = own ∧ o.idMap = idMap ∧ o.secret1 = s ∧ o.r1Bytes = data := by
  obtain ⟨hmin, hle⟩ := doc.part1_params _ _ _ _ _ h
  obtain ⟨s', package', hok, hround, -⟩ := doc.part1_ok ident n minSigners rng hmin hle
  obtain ⟨rfl, rfl⟩ := Prod.mk.inj (Except.ok.inj (h.symm.trans hok))
  have hone : 1 ≤ minSigners.toNat := le_trans (by decide) (UInt16.le_iff_toNat_le.mp hmin)
  exact ⟨⟨hmin, hle⟩, {
    idMap, secret1 := s, r1Bytes := data, own, idMap_eq := hmap
    ident := hround.identifier ▸ hident
    maxSigners := hround.maxSigners
    minSigners := hround.minSigners
    committed := hround.commitment
    length := hround.length.trans (Nat.max_eq_right hone).symm
    decoded := hdecode
    published := hproject ▸ hround.published }, rfl, rfl, rfl, rfl⟩

theorem constantPart1_opens {failure : LibError} {constantTerm : F} {idMap : IdMap}
    (hmap : buildIdMap core n = .ok idMap) {s : Round1SecretPackage F G} {b : Bytes}
    (h : constantPart1 core failure p n minSigners constantTerm rng = .ok (s, b))
    {decode : Bytes → Option α} (project : α → Round1Package F G) {data : Bytes}
    (own : Round1Package F G → α) (hdecode : ∀ package, core.serializeRound1 package = some b →
      decode data = some (own package) ∧ project (own package) = package) :
    ∃ o : Opening core decode project n minSigners p,
      o.secret1.coefficients.headD 0 = constantTerm ∧ (∃ package, o.own = own package) ∧
      o.idMap = idMap ∧ o.secret1 = s ∧ o.r1Bytes = data := by
  obtain ⟨ident, σ, hident, -, rfl, hb⟩ := constantPart1_ok h
  obtain ⟨ha, hproject⟩ := hdecode _ hb
  refine ⟨{
    idMap, secret1 := _, r1Bytes := data, own := own _, idMap_eq := hmap
    ident := hident
    maxSigners := rfl
    minSigners := rfl
    committed := rfl
    length := ?_
    decoded := ha
    published := ?_ }, rfl, ⟨_, rfl⟩, rfl, rfl, rfl⟩
  · rw [contribution, List.length_cons, length_drawScalars]
    omega
  · rw [hproject]

/-- The constant term that a party of a key generation draws. -/
def dkgTerm (core : FrostCore F G Rng) (n minSigners p : UInt16) (rng : Rng) : F :=
  match Identifier.tryFrom p with
  | none => 0
  | some ident =>
    match core.part1 ident n minSigners rng with
    | .ok (s, _) => s.coefficients.headD 0
    | .error _ => 0

theorem dkgRun_opens (doc : core.Documented) (n minSigners p : UInt16) (rng : Rng)
    (f : KeyPackage F G × PublicKeyPackage F G → Ceremony β) :
    Opens core core.deserializeRound1 id n minSigners p
      (fun o => (2 ≤ minSigners ∧ minSigners ≤ n) ∧
        o.secret1.coefficients.headD 0 = dkgTerm core n minSigners p rng) (fun _ => f)
      (dkgRun core p n minSigners rng >>= f) := by
  unfold dkgRun
  simp only [Proc.bind_bind]
  refine .lift fun idMap hmap => .lift fun ident hident => .lift fun drawn hpart1 =>
    .lift fun b hb => ?_
  obtain ⟨s, package⟩ := drawn
  rw [okOr_eq_ok] at hident hb
  rw [blameErr_eq_ok] at hpart1
  obtain ⟨hmin, o, -, rfl, rfl, rfl⟩ :=
    part1_opens doc hmap hident hpart1 id (doc.round1_roundtrip _ _ hb) rfl
  rw [runRounds_bind]
  refine .inr ⟨o, ⟨hmin, ?_⟩, rfl⟩
  simp only [dkgTerm, hident, hpart1]

theorem keyImportRun_opens (doc : core.Documented) (n minSigners p : UInt16) (constantTerm : F)
    (rng : Rng) (f : KeyPackage F G × PublicKeyPackage F G → Ceremony β) :
    Opens core core.deserializeRound1 id n minSigners p
      (fun o => o.secret1.coefficients.headD 0 = constantTerm) (fun _ => f)
      (keyImportRun core p n minSigners constantTerm rng >>= f) := by
  unfold keyImportRun
  simp only [Proc.bind_bind]
  refine .lift fun idMap hmap => .lift fun ⟨s, b⟩ hpart1 => ?_
  obtain ⟨o, hterm, -, rfl, rfl, rfl⟩ := constantPart1_opens hmap hpart1 id id
    fun package hb => ⟨doc.round1_roundtrip _ _ hb, rfl⟩
  rw [runRounds_bind]
  exact .inr ⟨o, hterm, rfl⟩

/-- What a resharing does behind its rounds. -/
def checkReshared (core : FrostCore F G Rng) (expectedVk : Bytes)
    (keys : KeyPackage F G × PublicKeyPackage F G) :
    Ceremony (KeyPackage F G × PublicKeyPackage F G) := do
  let vkBytes ← okOr .serializationError (core.serializeVerifyingKey keys.2.verifyingKey)
  if vkBytes ≠ expectedVk then
    .fail LibError.reshareError
  else
    return keys

theorem reshareRun_opens (doc : core.Documented) (n minSigners p : UInt16) (additiveShare : F)
    (expectedVk : Bytes) (rng : Rng) :
    Opens core core.deserializeRound1 id n minSigners p
      (fun o => o.secret1.coefficients.headD 0 = additiveShare)
      (fun _ => checkReshared core expectedVk)
      (reshareRun core p n minSigners additiveShare expectedVk rng) := by
  unfold reshareRun
  refine .lift fun idMap hmap => .lift fun ⟨s, b⟩ hpart1 => ?_
  obtain ⟨o, hterm, -, rfl, rfl, rfl⟩ := constantPart1_opens hmap hpart1 id id
    fun package hb => ⟨doc.round1_roundtrip _ _ hb, rfl⟩
  refine .inr ⟨o, hterm, ?_⟩
  rw [Opening.rounds]
  exact runRounds_bind n o.idMap o.secret1 o.r1Bytes (checkReshared core expectedVk)

/-! ## In a run -/

section Runs

variable {decode : Bytes → Option α} {project : α → Round1Package F G} {w : Setting}
  {body : UInt16 → Ceremony β} {acts : List Net.Action} {net : Net β} {q : UInt16} {b : β}
  {property : Opening core decode project n minSigners q → Prop}
  {f : BTreeMap (Identifier F) α → KeyPackage F G × PublicKeyPackage F G → Ceremony β}
  {l₁ l₂ log : List (UInt16 × Bytes)} {keys : KeyPackage F G × PublicKeyPackage F G}

/-- The first message of `q` that `p` was given. -/
def firstTo (net : Net β) (q p : UInt16) : Option Bytes := (sentBy q (net.fed p)).head?

theorem Opening.finished {o : Opening core decode project n minSigners p}
    (hrun : Net.run w body acts = some net) (hbody : body p = o.rounds f)
    (hout : (net.party p).outcome = some (.ok b)) :
    ∃ l₁ l₂ log keys rest, net.fed p = l₁ ++ (l₂ ++ log) ∧ RoundsOver o l₁ l₂ keys ∧
      (∀ m ∈ l₁, m.1 ≠ p) ∧ (f (stored decode l₁) keys).eval (log.map frame) = some (.ok b, rest) := by
  rw [Net.outcome_eq hrun, hbody] at hout
  obtain ⟨⟨r, rest⟩, heval, hr⟩ := Option.map_eq_some_iff.mp hout
  obtain rfl := hr
  obtain ⟨l₁, l₂, log, keys, hfed, hover, hf⟩ := Opening.rounds_ok heval
  refine ⟨l₁, l₂, log, keys, rest, hfed, hover, fun m hm => ?_, hf⟩
  exact (Net.mem_fed hrun (hfed ▸ List.mem_append_left _ hm : (m.1, m.2) ∈ net.fed p)).2.2.symm

theorem Opens.firstTo (hrun : Net.run w body acts = some net) (hq : q ∉ w.corrupt)
    (hopens : Opens core decode project n minSigners q property f (body q)) {m : Bytes}
    (hm : firstTo net q p = some m) :
    ∃ o : Opening core decode project n minSigners q, property o ∧ body q = o.rounds f ∧
      m = o.r1Bytes := by
  have hle := Net.sentBy_le_copies hrun hq p
  obtain ⟨rest, hsent⟩ : ∃ rest, sentBy q (net.fed p) = m :: rest :=
    ⟨_, List.eq_cons_of_mem_head? hm⟩
  have hto : p ∈ w.ids ∧ p ≠ q := by
    have hmem : (q, m) ∈ net.fed p := by
      have hin : m ∈ sentBy q (net.fed p) := hsent ▸ List.mem_cons_self
      obtain ⟨x, hx, rfl⟩ := List.mem_map.mp hin
      obtain ⟨hx, hfst⟩ := List.mem_filter.mp hx
      rw [← of_decide_eq_true hfst]
      exact hx
    exact (Net.mem_fed hrun hmem).2
  rw [hsent, List.cons_append] at hle
  rcases hopens with ⟨e, hfail⟩ | ⟨o, ho, hbody⟩
  · rw [hfail] at hle
    exact absurd (List.prefix_nil.mp hle) (List.cons_ne_nil _ _)
  · refine ⟨o, ho, hbody, ?_⟩
    have hcopies : ∃ l, Net.copies w.ids q p ((body q).outs (net.frames q)) = o.r1Bytes :: l := by
      rw [hbody]
      unfold Opening.rounds roundsWith broadcast Proc.output
      rw [Proc.emit_bind, Proc.outs_emit, Net.copies, List.flatMap_cons,
        Net.route_broadcast hto.1 hto.2]
      exact ⟨_, rfl⟩
    obtain ⟨l, hl⟩ := hcopies
    rw [hl] at hle
    exact (List.cons_prefix_cons.mp hle).1

theorem sentBy_of_nodup (hnodup : (log.map Prod.fst).Nodup) {m : UInt16 × Bytes} (hm : m ∈ log) :
    sentBy m.1 log = [m.2] := by
  induction log with
  | nil => exact absurd hm List.not_mem_nil
  | cons x log ih =>
    rw [List.map_cons, List.nodup_cons] at hnodup
    rcases List.mem_cons.mp hm with rfl | hm
    · rw [← Prod.mk.eta (p := m), sentBy_cons_self, sentBy_eq_nil hnodup.1]
    · have hne : x.1 ≠ m.1 := fun h => hnodup.1 (h ▸ List.mem_map_of_mem hm)
      rw [← Prod.mk.eta (p := x), sentBy_cons_of_ne hne, ih hnodup.2 hm]

theorem firstTo_of_mem (hfed : net.fed p = l₁ ++ log) (hnodup : (l₁.map Prod.fst).Nodup)
    {m : UInt16 × Bytes} (hm : m ∈ l₁) : firstTo net m.1 p = some m.2 := by
  rw [firstTo, hfed, sentBy_append, sentBy_of_nodup hnodup hm]
  rfl

theorem RoundsOver.sum_firsts (doc : core.Documented)
    {o : Opening core decode project n minSigners p} (h : RoundsOver o l₁ l₂ keys)
    (hothers : ∀ m ∈ l₁, m.1 ≠ p) (hp : p ∈ upTo n) (hfed : net.fed p = l₁ ++ log) {A : Type}
    [AddCommMonoid A] (g : Bytes → A) :
    (l₁.map fun m => g m.2).sum =
      ∑ q ∈ (upTo n).toFinset.erase p, ((firstTo net q p).map g).getD 0 := by
  have hnodup := h.nodup₁ doc hothers
  rw [← h.senders_eq doc hothers hp, List.sum_toFinset _ hnodup, List.map_map]
  refine congrArg List.sum (List.map_congr_left fun m hm => ?_)
  rw [Function.comp_apply, firstTo_of_mem hfed hnodup hm]
  rfl

end Runs

end Ceremony
