import FrostZm.Ceremony.Rounds

/-!
# What a session has read

Facts about the two rounds that hold whatever the other parties send. A session that gets
through them has heard as many other parties as it must, each of them once in each round, and
its keys are made of their commitments.
-/

open FrostChannel Phases Shamir

set_option linter.unusedSectionVars false

variable {F G Rng : Type} [Field F] [DecidableEq F] [Ord F] [Std.TransOrd F] [Std.LawfulEqOrd F]
  [AddCommGroup G] [Module F G]

namespace Ceremony

variable {core : FrostCore F G Rng} {α β : Type} [Inhabited α]

/-! ## Senders -/

def senderId (s : UInt16) : Identifier F := (Identifier.tryFrom s).getD default

theorem tryFrom_senderId (doc : core.Documented) {s : UInt16} (hs : s ≠ 0) :
    Identifier.tryFrom s = some (senderId s : Identifier F) := by
  obtain ⟨id, hid⟩ := doc.exists_tryFrom hs
  rw [senderId, hid]
  rfl

theorem senderId_inj (doc : core.Documented) {s t : UInt16} (hs : s ≠ 0) (ht : t ≠ 0)
    (h : (senderId s : Identifier F) = senderId t) : s = t :=
  doc.tryFrom_inj (tryFrom_senderId doc hs) (h ▸ tryFrom_senderId doc ht)

theorem ne_zero_of_tryFrom {s : UInt16} {id : Identifier F} (h : Identifier.tryFrom s = some id) :
    s ≠ 0 := by
  rintro rfl
  unfold Identifier.tryFrom at h
  rw [dif_neg] at h
  · nomatch h
  · rw [not_not]
    exact Nat.cast_zero

/-! ## What a loop has stored -/

/-- The map that a collecting loop makes of its messages. -/
def stored (decode : Bytes → Option α) (log : List (UInt16 × Bytes)) : BTreeMap (Identifier F) α :=
  BTreeMap.tabulate (fun m : UInt16 × Bytes => senderId m.1) (fun m => (decode m.2).getD default) log

/-- Each message has a valid sender and can be read. -/
def Readable (decode : Bytes → Option α) (log : List (UInt16 × Bytes)) : Prop :=
  ∀ m ∈ log, m.1 ≠ 0 ∧ (decode m.2).isSome

theorem store_eq_ok {decode : Bytes → Option α} {map map' : BTreeMap (Identifier F) α}
    {m : UInt16 × Bytes} (h : store decode map m = .ok map') :
    (m.1 ≠ 0 ∧ (decode m.2).isSome) ∧ map' = map.insert (senderId m.1) ((decode m.2).getD default) := by
  unfold store at h
  obtain ⟨id, hid, h⟩ := bind_eq_ok.mp h
  obtain ⟨a, ha, h⟩ := bind_eq_ok.mp h
  rw [okOr_eq_ok] at hid ha
  have hne := ne_zero_of_tryFrom hid
  rw [senderId, hid, ha]
  exact ⟨⟨hne, rfl⟩, (Except.ok.inj h).symm⟩

theorem foldlM_store_eq_ok {decode : Bytes → Option α} {log : List (UInt16 × Bytes)}
    {map : BTreeMap (Identifier F) α} (h : log.foldlM (store decode) ∅ = .ok map) :
    Readable decode log ∧ map = stored decode log := by
  induction log using List.reverseRecOn generalizing map with
  | nil => exact ⟨nofun, (Except.ok.inj h).symm⟩
  | append_singleton log m ih =>
    rw [List.foldlM_append] at h
    obtain ⟨map₁, h₁, h⟩ := bind_eq_ok.mp h
    rw [List.foldlM_cons] at h
    obtain ⟨map₂, h₂, h⟩ := bind_eq_ok.mp h
    obtain rfl := Except.ok.inj h
    obtain ⟨hlog, rfl⟩ := ih h₁
    obtain ⟨hm, rfl⟩ := store_eq_ok h₂
    refine ⟨?_, ?_⟩
    · intro x hx
      rcases List.mem_append.mp hx with hx | hx
      · exact hlog x hx
      · exact List.mem_singleton.mp hx ▸ hm
    · rw [stored, stored, BTreeMap.tabulate_concat]

theorem recvEach_store_ok {decode : Bytes → Option α} {n : Nat} {log : List (UInt16 × Bytes)}
    {map : BTreeMap (Identifier F) α} {rest : List Bytes}
    (h : (recvEach n ∅ (store decode)).eval (log.map frame) = some (.ok map, rest)) :
    ∃ l log', log = l ++ log' ∧ rest = log'.map frame ∧ l.length = n ∧
      Readable decode l ∧ map = stored decode l := by
  obtain ⟨fs, happ, hlen, hfold⟩ := Proc.eval_collect_ok_iff.mp h
  obtain ⟨l, log', rfl, rfl, rfl⟩ := List.map_eq_append_iff.mp happ
  rw [foldlM_frames] at hfold
  obtain ⟨hdec, rfl⟩ := foldlM_store_eq_ok hfold
  exact ⟨l, log', rfl, rfl, by simpa using hlen, hdec, rfl⟩

section Stored

variable {decode : Bytes → Option α} {log : List (UInt16 × Bytes)}

theorem mem_stored {id : Identifier F} :
    id ∈ (stored decode log : BTreeMap (Identifier F) α) ↔ ∃ m ∈ log, senderId m.1 = id :=
  BTreeMap.mem_tabulate

theorem nodup_of_size_stored
    (h : (stored decode log : BTreeMap (Identifier F) α).size = log.length) :
    (log.map Prod.fst).Nodup := by
  have hkeys := BTreeMap.size_tabulate_eq_iff.mp h
  have hmap : log.map (fun m => (senderId m.1 : Identifier F)) =
      (log.map Prod.fst).map senderId := by rw [List.map_map]; rfl
  rw [hmap] at hkeys
  exact List.Nodup.of_map _ hkeys

theorem not_mem_stored (doc : core.Documented) {p : UInt16} (hp : p ≠ 0)
    (hread : Readable decode log) (hothers : ∀ m ∈ log, m.1 ≠ p) :
    (senderId p : Identifier F) ∉ (stored decode log : BTreeMap (Identifier F) α) := by
  rw [mem_stored]
  rintro ⟨m, hm, h⟩
  exact hothers m hm (senderId_inj doc (hread m hm).1 hp h)

theorem injective_senderId (doc : core.Documented) (hread : Readable decode log)
    (hnodup : (log.map Prod.fst).Nodup) :
    BTreeMap.Injective (fun m : UInt16 × Bytes => (senderId m.1 : Identifier F)) log := by
  intro m hm m' hm' h
  have hfst := senderId_inj doc (hread m hm).1 (hread m' hm').1 h
  exact List.inj_on_of_nodup_map hnodup hm hm' hfst

end Stored

theorem size_map {κ γ δ : Type} [Ord κ] [Std.TransOrd κ] (m : BTreeMap κ γ) (g : κ → γ → δ) :
    (m.map g).size = m.size := Std.ExtTreeMap.size_map

section Commitments

variable {s : Round2SecretPackage F G} {r1 : BTreeMap (Identifier F) (Round1Package F G)}

theorem not_mem_commitments (h : s.identifier ∉ r1) :
    s.identifier ∉ r1.map fun _ package => package.commitment := by
  rwa [Std.ExtTreeMap.mem_map]

theorem sumValues_groupCommitments (h : s.identifier ∉ r1) (g : List G → G) :
    FrostCore.sumValues (FrostCore.groupCommitments s r1) g =
      g s.commitment + FrostCore.sumValues r1 fun package => g package.commitment := by
  have hperm := BTreeMap.toList_insert_perm (r1.map fun _ package => package.commitment)
    s.identifier s.commitment
  rw [BTreeMap.erase_of_not_mem (not_mem_commitments h)] at hperm
  rw [FrostCore.groupCommitments, FrostCore.sumValues, (hperm.map _).sum_eq, List.map_cons,
    List.sum_cons, Std.ExtTreeMap.toList_map, List.map_map]
  rfl

theorem size_groupCommitments (h : s.identifier ∉ r1) :
    (FrostCore.groupCommitments s r1).size = r1.size + 1 := by
  rw [FrostCore.groupCommitments, Std.ExtTreeMap.size_insert, if_neg, size_map]
  rw [← Std.ExtTreeMap.mem_iff_contains]
  exact not_mem_commitments h

end Commitments

/-! ## The rounds -/

/-- The two rounds of every key ceremony: `decode` reads a message of round 1, and `project`
finds the package in it. -/
def roundsWith (core : FrostCore F G Rng) (decode : Bytes → Option α)
    (project : α → Round1Package F G) (maxSigners : UInt16) (idMap : IdMap)
    (secret1 : Round1SecretPackage F G) (r1Bytes : Bytes)
    (f : BTreeMap (Identifier F) α → KeyPackage F G × PublicKeyPackage F G → Ceremony β) :
    Ceremony β := do
  broadcast r1Bytes
  let r1Map ← recvEach (maxSigners - 1).toNat ∅ (store decode)
  let keys ← finishRounds core maxSigners idMap secret1 (r1Map.map fun _ => project)
  f r1Map keys

theorem runRounds_bind (maxSigners : UInt16) (idMap : IdMap) (secret1 : Round1SecretPackage F G)
    (r1Bytes : Bytes) (f : KeyPackage F G × PublicKeyPackage F G → Ceremony β) :
    runRounds core maxSigners idMap secret1 r1Bytes >>= f =
      roundsWith core core.deserializeRound1 id maxSigners idMap secret1 r1Bytes fun _ => f := by
  unfold runRounds roundsWith
  rw [Proc.bind_bind]
  congr 1
  funext _
  rw [Proc.bind_bind]
  congr 1
  funext r1Map
  have hid : (r1Map.map fun _ => (id : Round1Package F G → Round1Package F G)) = r1Map := by
    refine Std.ExtTreeMap.ext_getElem? fun k => ?_
    rw [Std.ExtTreeMap.getElem?_map]
    exact Option.map_id_fun' ▸ rfl
  rw [hid]

instance : Inhabited (Round2Package F) := ⟨⟨0⟩⟩

/-- What a party `p` begins its rounds with. -/
structure Opening (core : FrostCore F G Rng) (decode : Bytes → Option α)
    (project : α → Round1Package F G) (n minSigners p : UInt16) where
  idMap : IdMap
  secret1 : Round1SecretPackage F G
  r1Bytes : Bytes
  own : α
  idMap_eq : buildIdMap core n = .ok idMap
  ident : Identifier.tryFrom p = some secret1.identifier
  length : secret1.coefficients.length = max 1 minSigners.toNat
  maxSigners : secret1.maxSigners = n
  minSigners : secret1.minSigners = minSigners
  committed : secret1.commitment = secret1.coefficients.map (· • core.generator)
  decoded : decode r1Bytes = some own
  published : (project own).commitment = secret1.commitment

/-- The rounds that begin so, and what follows them. -/
def Opening.rounds {decode : Bytes → Option α} {project : α → Round1Package F G}
    {n minSigners p : UInt16} (o : Opening core decode project n minSigners p)
    (f : BTreeMap (Identifier F) α → KeyPackage F G × PublicKeyPackage F G → Ceremony β) :
    Ceremony β :=
  roundsWith core decode project n o.idMap o.secret1 o.r1Bytes f

variable {decode : Bytes → Option α} {project : α → Round1Package F G} {n minSigners : UInt16}
  {idMap : IdMap} {secret1 : Round1SecretPackage F G} {l₁ l₂ log : List (UInt16 × Bytes)}
  {keys : KeyPackage F G × PublicKeyPackage F G} {p q : UInt16} {rest : List Bytes}
  {f : BTreeMap (Identifier F) α → KeyPackage F G × PublicKeyPackage F G → Ceremony β}

theorem Opening.ne_zero (o : Opening core decode project n minSigners p) : p ≠ 0 :=
  ne_zero_of_tryFrom o.ident

/-- What is left of it for the third round. -/
def Opening.secret2 (o : Opening core decode project n minSigners p) : Round2SecretPackage F G where
  identifier := o.secret1.identifier
  commitment := o.secret1.commitment
  secretShare := evalPoly o.secret1.coefficients o.secret1.identifier.toScalar
  minSigners := o.secret1.minSigners
  maxSigners := o.secret1.maxSigners

theorem Opening.identifier (o : Opening core decode project n minSigners p) :
    o.secret1.identifier = senderId p := by
  rw [senderId, o.ident]
  rfl

/-- The two rounds are over: `l₁` and `l₂` were read in them. -/
structure RoundsOver (o : Opening core decode project n minSigners p)
    (l₁ l₂ : List (UInt16 × Bytes)) (keys : KeyPackage F G × PublicKeyPackage F G) : Prop where
  length₁ : l₁.length = (n - 1).toNat
  length₂ : l₂.length = (n - 1).toNat
  readable₁ : Readable decode l₁
  readable₂ : Readable core.deserializeRound2 l₂
  keysOf : ∃ secret2 sent,
    core.part2 o.secret1 ((stored decode l₁).map fun _ => project) = .ok (secret2, sent) ∧
    (∀ e ∈ sent.toList, ∃ m, lookupU16 core o.idMap e.1 = .ok m) ∧
    core.part3 secret2 ((stored decode l₁).map fun _ => project)
      (stored core.deserializeRound2 l₂) = .ok keys

theorem sendRound2_ok {l : List (Identifier F × Round2Package F)} {h : List Bytes}
    (he : (sendRound2 core idMap l).eval h = some (.ok (), rest)) : rest = h := by
  induction l generalizing h with
  | nil => exact ((Prod.mk.inj (Option.some.inj he)).2).symm
  | cons e l ih =>
    obtain ⟨id, pkg⟩ := e
    unfold sendRound2 at he
    obtain ⟨num, -, he⟩ := Proc.eval_liftM_bind_ok.mp he
    obtain ⟨data, -, he⟩ := Proc.eval_liftM_bind_ok.mp he
    exact ih he

theorem finishRounds_ok {r1Map : BTreeMap (Identifier F) (Round1Package F G)}
    (he : (finishRounds core n idMap secret1 r1Map).eval (log.map frame) =
      some (.ok keys, rest)) :
    ∃ l₂ log' secret2 sent, log = l₂ ++ log' ∧ rest = log'.map frame ∧
      l₂.length = (n - 1).toNat ∧ Readable core.deserializeRound2 l₂ ∧
      core.part2 secret1 r1Map = .ok (secret2, sent) ∧
      (∀ e ∈ sent.toList, ∃ m, lookupU16 core idMap e.1 = .ok m) ∧
      core.part3 secret2 r1Map (stored core.deserializeRound2 l₂) = .ok keys := by
  unfold finishRounds at he
  obtain ⟨⟨secret2, sent⟩, hpart2, he⟩ := Proc.eval_liftM_bind_ok.mp he
  obtain ⟨⟨⟩, h₂, hsend, he⟩ := Proc.eval_bind_ok.mp he
  have hlookup := lookup_of_sendRound2 hsend
  obtain rfl := sendRound2_ok hsend
  obtain ⟨r2Map, h₃, hrecv, he⟩ := Proc.eval_bind_ok.mp he
  obtain ⟨l₂, log', rfl, rfl, hlen, hread, rfl⟩ := recvEach_store_ok hrecv
  rw [Proc.liftM_eq, Proc.eval_lift, Option.some.injEq, Prod.mk.injEq] at he
  obtain ⟨hpart3, rfl⟩ := he
  rw [blameErr_eq_ok] at hpart2 hpart3
  exact ⟨l₂, log', secret2, sent, rfl, rfl, hlen, hread, hpart2, hlookup, hpart3⟩

theorem Opening.rounds_ok {o : Opening core decode project n minSigners p} {b : β}
    (he : (o.rounds f).eval (log.map frame) = some (.ok b, rest)) :
    ∃ l₁ l₂ log' keys, log = l₁ ++ (l₂ ++ log') ∧ RoundsOver o l₁ l₂ keys ∧
      (f (stored decode l₁) keys).eval (log'.map frame) = some (.ok b, rest) := by
  unfold Opening.rounds roundsWith at he
  obtain ⟨⟨⟩, h₁, hbroad, he⟩ := Proc.eval_bind_ok.mp he
  obtain ⟨-, rfl⟩ := Prod.mk.inj (Option.some.inj hbroad)
  obtain ⟨r1Map, h₂, hrecv, he⟩ := Proc.eval_bind_ok.mp he
  obtain ⟨l₁, log₁, rfl, rfl, hlen₁, hread₁, rfl⟩ := recvEach_store_ok hrecv
  obtain ⟨keys, h₃, hfinish, he⟩ := Proc.eval_bind_ok.mp he
  obtain ⟨l₂, log', secret2, sent, rfl, rfl, hlen₂, hread₂, hpart2, hlookup, hpart3⟩ :=
    finishRounds_ok hfinish
  exact ⟨l₁, l₂, log', keys, rfl,
    ⟨hlen₁, hlen₂, hread₁, hread₂, secret2, sent, hpart2, hlookup, hpart3⟩, he⟩

/-! ## Who was heard -/

namespace RoundsOver

variable {o : Opening core decode project n minSigners p}

theorem not_mem (doc : core.Documented) (h : RoundsOver o l₁ l₂ keys)
    (hothers : ∀ m ∈ l₁, m.1 ≠ p) :
    o.secret1.identifier ∉
      (stored decode l₁ : BTreeMap (Identifier F) α).map fun _ => project := by
  rw [Std.ExtTreeMap.mem_map, o.identifier]
  exact not_mem_stored doc o.ne_zero h.readable₁ hothers

theorem accepted (doc : core.Documented) (h : RoundsOver o l₁ l₂ keys)
    (hothers : ∀ m ∈ l₁, m.1 ≠ p) :
    core.Part2Accepts o.secret1 ((stored decode l₁).map fun _ => project) := by
  obtain ⟨secret2, sent, hpart2, -, -⟩ := h.keysOf
  exact (doc.part2_ok_iff _ _ (h.not_mem doc hothers)).mp ⟨_, hpart2⟩

theorem nodup₁ (doc : core.Documented) (h : RoundsOver o l₁ l₂ keys)
    (hothers : ∀ m ∈ l₁, m.1 ≠ p) : (l₁.map Prod.fst).Nodup := by
  have hsize := (h.accepted doc hothers).size
  rw [size_map, o.maxSigners, ← h.length₁] at hsize
  exact nodup_of_size_stored hsize

theorem part3Accepts (doc : core.Documented) (h : RoundsOver o l₁ l₂ keys)
    (hothers : ∀ m ∈ l₁, m.1 ≠ p) :
    core.Part3Accepts o.secret2 ((stored decode l₁).map fun _ => project)
        (stored core.deserializeRound2 l₂) ∧
      keys.1 = core.keyOf o.secret2 ((stored decode l₁).map fun _ => project)
        (stored core.deserializeRound2 l₂) ∧
      keys.2 = FrostCore.publicKeys o.secret2 ((stored decode l₁).map fun _ => project) := by
  obtain ⟨secret2, sent, hpart2, -, hpart3⟩ := h.keysOf
  obtain ⟨rfl, -⟩ := doc.part2_eq _ _ _ _ hpart2
  have haccepts := (doc.part3_ok_iff _ _ _ (h.not_mem doc hothers)).mp ⟨keys, hpart3⟩
  exact ⟨haccepts, doc.part3_eq _ _ _ keys.1 keys.2 hpart3⟩

theorem perm (doc : core.Documented) (h : RoundsOver o l₁ l₂ keys)
    (hothers : ∀ m ∈ l₁, m.1 ≠ p) : (l₂.map Prod.fst).Perm (l₁.map Prod.fst) := by
  obtain ⟨haccepts, -, -⟩ := h.part3Accepts doc hothers
  have hkeys : ∀ id : Identifier F, id ∈ (stored decode l₁ : BTreeMap (Identifier F) α) ↔
      id ∈ (stored core.deserializeRound2 l₂ : BTreeMap (Identifier F) _) := fun id => by
    rw [← haccepts.keys id, Std.ExtTreeMap.mem_map]
  have hnodup₁ := h.nodup₁ doc hothers
  have hsub : ∀ s ∈ l₁.map Prod.fst, s ∈ l₂.map Prod.fst := by
    intro s hs
    obtain ⟨m, hm, rfl⟩ := List.mem_map.mp hs
    obtain ⟨m', hm', hid⟩ := mem_stored.mp ((hkeys _).mp (mem_stored.mpr ⟨m, hm, rfl⟩))
    rw [← senderId_inj doc (h.readable₂ m' hm').1 (h.readable₁ m hm).1 hid]
    exact List.mem_map_of_mem hm'
  -- as many different senders among as many messages
  have hperm : (l₁.map Prod.fst).Perm (l₂.map Prod.fst) :=
    (hnodup₁.subperm hsub).perm_of_length_le (by
      rw [List.length_map, List.length_map, h.length₁, h.length₂])
  exact hperm.symm

theorem nodup₂ (doc : core.Documented) (h : RoundsOver o l₁ l₂ keys)
    (hothers : ∀ m ∈ l₁, m.1 ≠ p) : (l₂.map Prod.fst).Nodup :=
  (h.perm doc hothers).nodup_iff.mpr (h.nodup₁ doc hothers)

theorem numbered (doc : core.Documented) (h : RoundsOver o l₁ l₂ keys) :
    ∀ m ∈ l₁, m.1 ∈ upTo n := by
  intro m hm
  obtain ⟨secret2, sent, hpart2, hlookup, -⟩ := h.keysOf
  obtain ⟨-, rfl⟩ := doc.part2_eq _ _ _ _ hpart2
  have hmem : (senderId m.1 : Identifier F) ∈ (stored decode l₁ : BTreeMap (Identifier F) α) :=
    mem_stored.mpr ⟨m, hm, rfl⟩
  obtain ⟨a, ha⟩ := Std.ExtTreeMap.mem_iff_isSome_getElem?.mp hmem |> Option.isSome_iff_exists.mp
  obtain ⟨k, hk⟩ := hlookup (senderId m.1, _) (by
    rw [Std.ExtTreeMap.mem_toList_iff_getElem?_eq_some, Std.ExtTreeMap.getElem?_map,
      Std.ExtTreeMap.getElem?_map, ha]
    rfl)
  exact mem_upTo_of_lookup doc o.idMap_eq (tryFrom_senderId doc (h.readable₁ m hm).1) hk

theorem senders_eq (doc : core.Documented) (h : RoundsOver o l₁ l₂ keys)
    (hothers : ∀ m ∈ l₁, m.1 ≠ p) (hp : p ∈ upTo n) :
    (l₁.map Prod.fst).toFinset = (upTo n).toFinset.erase p := by
  refine Finset.eq_of_subset_of_card_le (fun s hs => ?_) ?_
  · obtain ⟨m, hm, rfl⟩ := List.mem_map.mp (List.mem_toFinset.mp hs)
    exact Finset.mem_erase.mpr ⟨hothers m hm, List.mem_toFinset.mpr (h.numbered doc m hm)⟩
  · rw [card_erase_upTo hp, List.toFinset_card_of_nodup (h.nodup₁ doc hothers), List.length_map,
      h.length₁]

/-! ## The keys -/

/-- The commitment to the constant term in a message of round 1. -/
def firstOf (decode : Bytes → Option α) (project : α → Round1Package F G) (data : Bytes) : G :=
  (project ((decode data).getD default)).commitment.headD 0

theorem sumValues_stored (doc : core.Documented) (h : RoundsOver o l₁ l₂ keys)
    (hothers : ∀ m ∈ l₁, m.1 ≠ p) {γ A : Type} [AddCommMonoid A] (φ : α → γ) (g : γ → A) :
    FrostCore.sumValues ((stored decode l₁ : BTreeMap (Identifier F) α).map fun _ => φ) g =
      (l₁.map fun m => g (φ ((decode m.2).getD default))).sum := by
  have hinj := injective_senderId doc h.readable₁ (h.nodup₁ doc hothers)
  have hnodup : l₁.Nodup := List.Nodup.of_map _ (h.nodup₁ doc hothers)
  rw [stored, BTreeMap.map_tabulate _ hinj, FrostCore.sumValues,
    BTreeMap.sum_toList_tabulate hinj hnodup]

theorem verifyingKey_eq (doc : core.Documented) (h : RoundsOver o l₁ l₂ keys)
    (hothers : ∀ m ∈ l₁, m.1 ≠ p) :
    keys.2.verifyingKey =
      o.secret1.commitment.headD 0 + (l₁.map fun m => firstOf decode project m.2).sum := by
  obtain ⟨-, -, hpub⟩ := h.part3Accepts doc hothers
  rw [hpub, FrostCore.publicKeys, FrostCore.groupKey,
    sumValues_groupCommitments (h.not_mem doc hothers), h.sumValues_stored doc hothers]
  rfl

theorem minSigners_eq (doc : core.Documented) (h : RoundsOver o l₁ l₂ keys)
    (hothers : ∀ m ∈ l₁, m.1 ≠ p) : keys.1.minSigners = minSigners := by
  obtain ⟨-, hkey, -⟩ := h.part3Accepts doc hothers
  rw [hkey]
  exact o.minSigners

/-- Without a party the loops wait for others that do not exist. -/
theorem maxSigners_ne_zero (doc : core.Documented) (h : RoundsOver o l₁ l₂ keys) : n ≠ 0 := by
  rintro rfl
  have hlen := h.length₁
  cases l₁ with
  | nil => exact absurd hlen (by decide)
  | cons m l => exact absurd (h.numbered doc m List.mem_cons_self) List.not_mem_nil

theorem size_verifyingShares (doc : core.Documented) (h : RoundsOver o l₁ l₂ keys)
    (hothers : ∀ m ∈ l₁, m.1 ≠ p) : keys.2.verifyingShares.size = n.toNat := by
  obtain ⟨haccepts, -, hpub⟩ := h.part3Accepts doc hothers
  have hsize := haccepts.size
  rw [Opening.secret2, o.maxSigners] at hsize
  rw [hpub, FrostCore.publicKeys, size_map, size_groupCommitments (h.not_mem doc hothers), hsize]
  have hne := h.maxSigners_ne_zero doc
  have hle : (1 : UInt16) ≤ n := by
    rw [UInt16.le_iff_toNat_le]
    exact Nat.one_le_iff_ne_zero.mpr fun h0 => hne (UInt16.toNat_inj.mp h0)
  rw [UInt16.toNat_sub_of_le _ _ hle]
  exact Nat.sub_add_cancel (UInt16.le_iff_toNat_le.mp hle)

theorem received_eq (haccepts : core.Part3Accepts o.secret2 ((stored decode l₁).map fun _ => project)
      (stored core.deserializeRound2 l₂)) :
    (stored core.deserializeRound2 l₂ : BTreeMap (Identifier F) _).map
        (fun _ share => share.signingShare • core.generator) =
      ((stored decode l₁ : BTreeMap (Identifier F) α).map fun _ => project).map
        fun _ package => evalCommitment package.commitment o.secret1.identifier.toScalar := by
  refine Std.ExtTreeMap.ext_getElem? fun id => ?_
  have hkeys := haccepts.keys id
  rw [Std.ExtTreeMap.mem_iff_isSome_getElem?, Std.ExtTreeMap.mem_iff_isSome_getElem?] at hkeys
  rw [Std.ExtTreeMap.getElem?_map, Std.ExtTreeMap.getElem?_map]
  cases h₁ : ((stored decode l₁ : BTreeMap (Identifier F) α).map fun _ => project)[id]? with
  | none =>
    rw [h₁] at hkeys
    rw [Option.not_isSome_iff_eq_none.mp fun hsome => nomatch hkeys.mpr hsome]
    rfl
  | some package =>
    obtain ⟨share, h₂⟩ := Option.isSome_iff_exists.mp (hkeys.mp (h₁ ▸ rfl))
    rw [h₂, Option.map_some, Option.map_some, haccepts.share id package share h₁ h₂]
    rfl

/-- The commitments of the group, one's own and those of the others. -/
def commitments (o : Opening core decode project n minSigners p) (l₁ : List (UInt16 × Bytes)) :
    BTreeMap (Identifier F) (List G) :=
  FrostCore.groupCommitments o.secret2 ((stored decode l₁).map fun _ => project)

theorem signingShare_eq (doc : core.Documented) (h : RoundsOver o l₁ l₂ keys)
    (hothers : ∀ m ∈ l₁, m.1 ≠ p) :
    keys.1.signingShare • core.generator = FrostCore.sumValues (commitments o l₁) fun c =>
      evalCommitment c o.secret1.identifier.toScalar := by
  obtain ⟨haccepts, hkey, -⟩ := h.part3Accepts doc hothers
  have hreceived := congrArg (fun m : BTreeMap (Identifier F) G => FrostCore.sumValues m id)
    (received_eq haccepts)
  simp only [FrostCore.sumValues, Std.ExtTreeMap.toList_map, List.map_map] at hreceived
  have hown : evalCommitment o.secret2.commitment o.secret1.identifier.toScalar =
      o.secret2.secretShare • core.generator := by
    rw [Opening.secret2, o.committed, evalCommitment_map]
  rw [hkey, FrostCore.keyOf, FrostCore.longTermShare, commitments,
    sumValues_groupCommitments (h.not_mem doc hothers), add_smul, hown]
  refine congrArg _ ?_
  unfold FrostCore.sumValues
  rw [List.sum_smul, List.map_map, Std.ExtTreeMap.toList_map, List.map_map]
  exact hreceived

theorem length_commitments (doc : core.Documented) (h : RoundsOver o l₁ l₂ keys)
    (hothers : ∀ m ∈ l₁, m.1 ≠ p) {e : Identifier F × List G} (he : e ∈ (commitments o l₁).toList) :
    e.2.length = max 1 minSigners.toNat := by
  obtain ⟨haccepts, -, -⟩ := h.part3Accepts doc hothers
  have hown : o.secret2.commitment.length = max 1 minSigners.toNat := by
    rw [Opening.secret2, o.committed, List.length_map, o.length]
  rw [Std.ExtTreeMap.mem_toList_iff_getElem?_eq_some, commitments, FrostCore.groupCommitments,
    Std.ExtTreeMap.getElem?_insert] at he
  split at he
  · rwa [← Option.some.inj he]
  · rw [Std.ExtTreeMap.getElem?_map] at he
    obtain ⟨package, hpackage, hcommitment⟩ := Option.map_eq_some_iff.mp he
    rw [← hcommitment]
    exact (haccepts.length.2 e.1 package hpackage).trans hown

/-- With a threshold of one or none each share is the secret of the group. -/
theorem alone (doc : core.Documented) (h : RoundsOver o l₁ l₂ keys)
    (hothers : ∀ m ∈ l₁, m.1 ≠ p) (hmin : minSigners ≤ 1) :
    keys.1.signingShare • core.generator = keys.2.verifyingKey := by
  obtain ⟨-, -, hpub⟩ := h.part3Accepts doc hothers
  rw [h.signingShare_eq doc hothers, hpub]
  refine congrArg List.sum (List.map_congr_left fun e he => ?_)
  have hmax : max 1 minSigners.toNat = 1 := Nat.max_eq_left (UInt16.le_iff_toNat_le.mp hmin)
  obtain ⟨c, hc⟩ := List.length_eq_one_iff.mp ((h.length_commitments doc hothers he).trans hmax)
  rw [hc]
  simp [evalCommitment]

end RoundsOver

end Ceremony
