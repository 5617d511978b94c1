import FrostZm.Ceremony.Deal
import FrostZm.Session.Schedule

/-!
# The two rounds as phases

An honest session of the two rounds reads one round-1 package from each other party, then
one round-2 package from each. Neither decodes as the other, so a package that comes in
the wrong phase ends the session.
-/

open Phases Shamir

set_option linter.unusedSectionVars false

variable {F G Rng : Type} [Field F] [DecidableEq F] [Ord F] [Std.TransOrd F] [Std.LawfulEqOrd F]
  [AddCommGroup G] [Module F G]

namespace Ceremony

variable {core : FrostCore F G Rng}

/-! ## Party numbers -/

theorem mem_upTo {n p : UInt16} : p ∈ upTo n ↔ p ≠ 0 ∧ p ≤ n := by
  have hn := n.toNat_lt
  have hp := p.toNat_lt
  unfold upTo
  rw [List.mem_map, UInt16.le_iff_toNat_le]
  constructor
  · rintro ⟨i, hi, rfl⟩
    rw [List.mem_range] at hi
    have hval : (UInt16.ofNat (i + 1)).toNat = i + 1 := by
      rw [UInt16.toNat_ofNat']
      exact Nat.mod_eq_of_lt (by omega)
    refine ⟨fun h => ?_, by omega⟩
    rw [h] at hval
    exact absurd hval (by simp)
  · rintro ⟨h0, hle⟩
    have hpos : p.toNat ≠ 0 := fun h => h0 (UInt16.toNat_inj.mp h)
    refine ⟨p.toNat - 1, by rw [List.mem_range]; omega, ?_⟩
    rw [Nat.sub_add_cancel (by omega), UInt16.ofNat_toNat]

theorem nodup_upTo (n : UInt16) : (upTo n).Nodup := by
  have hn := n.toNat_lt
  refine List.nodup_range.map_on fun i hi j hj h => ?_
  rw [List.mem_range] at hi hj
  have hval := congrArg UInt16.toNat h
  rw [UInt16.toNat_ofNat', UInt16.toNat_ofNat', Nat.mod_eq_of_lt (by omega),
    Nat.mod_eq_of_lt (by omega)] at hval
  omega

@[simp] theorem length_upTo (n : UInt16) : (upTo n).length = n.toNat := by simp [upTo]

theorem one_le_of_mem_upTo {n p : UInt16} (hp : p ∈ upTo n) : (1 : UInt16) ≤ n := by
  have h := mem_upTo.mp hp
  rw [UInt16.le_iff_toNat_le] at h ⊢
  have hne : p.toNat ≠ 0 := fun h0 => h.1 (UInt16.toNat_inj.mp h0)
  have h1 : (1 : UInt16).toNat = 1 := rfl
  omega

theorem card_upTo (n : UInt16) : (upTo n).toFinset.card = n.toNat := by
  rw [List.toFinset_card_of_nodup (nodup_upTo n), length_upTo]

theorem card_erase_upTo {n p : UInt16} (hp : p ∈ upTo n) :
    ((upTo n).toFinset.erase p).card = (n - 1).toNat := by
  rw [Finset.card_erase_of_mem (List.mem_toFinset.mpr hp), card_upTo,
    UInt16.toNat_sub_of_le _ _ (one_le_of_mem_upTo hp)]
  rfl

/-! ## The map of identifiers -/

theorem lookup_map_key {key : UInt16 → Bytes} {l : List UInt16} {p : UInt16} (hp : p ∈ l)
    (hinj : ∀ x ∈ l, key x = key p → x = p) : (l.map fun i => (key i, i)).lookup (key p) = some p := by
  induction l with
  | nil => simp at hp
  | cons x l ih =>
    rw [List.map_cons, List.lookup_cons]
    by_cases h : key p = key x
    · rw [hinj x List.mem_cons_self h.symm]
      simp
    · have hne : p ≠ x := fun e => h (e ▸ rfl)
      rw [beq_eq_false_iff_ne.mpr h]
      exact ih ((List.mem_cons.mp hp).resolve_left hne) fun y hy => hinj y (List.mem_cons_of_mem _ hy)

theorem foldlM_idMap {ident : UInt16 → Identifier F} {l : List UInt16}
    (h : ∀ p ∈ l, Identifier.tryFrom p = some (ident p)) (map : IdMap) :
    l.foldlM (fun map i => do
      let id : Identifier F ← okOr .invalidIdentifier (Identifier.tryFrom i)
      return (core.serializeIdentifier id, i) :: map) map =
      (.ok ((l.map fun i => (core.serializeIdentifier (ident i), i)).reverse ++ map) : Result IdMap) := by
  induction l generalizing map with
  | nil => rfl
  | cons x l ih =>
    rw [List.foldlM_cons, h x List.mem_cons_self, List.map_cons, List.reverse_cons, List.append_assoc]
    exact ih (fun p hp => h p (List.mem_cons_of_mem _ hp)) _

theorem buildIdMap_ok (doc : core.Documented) {n : UInt16} {ident : UInt16 → Identifier F}
    (h : ∀ p ∈ upTo n, Identifier.tryFrom p = some (ident p)) :
    ∃ idMap, buildIdMap core n = .ok idMap ∧ ∀ p ∈ upTo n, lookupU16 core idMap (ident p) = .ok p := by
  refine ⟨_, foldlM_idMap h [], fun p hp => ?_⟩
  have hinj : ∀ x ∈ (upTo n).reverse,
      core.serializeIdentifier (ident x) = core.serializeIdentifier (ident p) → x = p := by
    intro x hx hkey
    exact doc.tryFrom_inj (h x (List.mem_reverse.mp hx)) (doc.identifier_injective _ _ hkey ▸ h p hp)
  have hlookup := lookup_map_key (List.mem_reverse.mpr hp) hinj
  rw [List.append_nil, ← List.map_reverse, lookupU16, okOr_eq_ok]
  exact hlookup

theorem mem_upTo_of_lookup (doc : core.Documented) {n : UInt16} {idMap : IdMap}
    (h : buildIdMap core n = .ok idMap) {q m : UInt16} {ident : Identifier F}
    (hq : Identifier.tryFrom q = some ident) (hlookup : lookupU16 core idMap ident = .ok m) : q ∈ upTo n := by
  have hident : ∀ p ∈ upTo n, ∃ ident : Identifier F, Identifier.tryFrom p = some ident :=
    fun p hp => doc.exists_tryFrom (mem_upTo.mp hp).1
  choose! idents hidents using hident
  have hmap : buildIdMap core n =
      .ok (((upTo n).map fun i => (core.serializeIdentifier (idents i), i)).reverse ++ []) :=
    foldlM_idMap hidents []
  rw [List.append_nil] at hmap
  obtain rfl := Except.ok.inj (h.symm.trans hmap)
  rw [lookupU16, okOr_eq_ok] at hlookup
  obtain ⟨l₁, l₂, hl, -⟩ := List.lookup_eq_some_iff.mp hlookup
  have hmem : (core.serializeIdentifier ident, m) ∈
      ((upTo n).map fun i => (core.serializeIdentifier (idents i), i)).reverse := by
    rw [hl]
    simp
  obtain ⟨i, hi, heq⟩ := List.mem_map.mp (List.mem_reverse.mp hmem)
  obtain ⟨hkey, rfl⟩ := Prod.mk.inj heq
  have hsame : idents i = ident := doc.identifier_injective _ _ hkey
  rwa [doc.tryFrom_inj hq (hsame ▸ hidents i hi)]

theorem lookup_of_sendRound2 {idMap : IdMap} {l : List (Identifier F × Round2Package F)}
    {t r : List Bytes} (h : (sendRound2 core idMap l).eval t = some (.ok (), r)) :
    ∀ e ∈ l, ∃ m, lookupU16 core idMap e.1 = .ok m := by
  induction l generalizing t with
  | nil => exact nofun
  | cons e l ih =>
    obtain ⟨id, pkg⟩ := e
    unfold sendRound2 at h
    obtain ⟨m, hm, h⟩ := Proc.eval_liftM_bind_ok.mp h
    obtain ⟨_, -, h⟩ := Proc.eval_liftM_bind_ok.mp h
    obtain ⟨_, _, -, h⟩ := Proc.eval_bind_ok.mp h
    rw [List.forall_mem_cons]
    exact ⟨⟨m, hm⟩, ih h⟩

/-! ## The loops -/

theorem foldlM_store {α : Type} {decode : Bytes → Option α} {ident : UInt16 → Identifier F}
    {val : UInt16 → α} (own : List UInt16) {log : List (UInt16 × Bytes)}
    (h : ∀ x ∈ log, Identifier.tryFrom x.1 = some (ident x.1) ∧ decode x.2 = some (val x.1)) :
    log.foldlM (store decode) (BTreeMap.tabulate ident val own) =
      .ok (BTreeMap.tabulate ident val (own ++ log.map Prod.fst)) := by
  induction log using List.reverseRecOn with
  | nil => simp [pure, Except.pure]
  | append_singleton log x ih =>
    have hx := h x (by simp)
    rw [List.foldlM_append, ih fun y hy => h y (List.mem_append_left _ hy), List.map_append,
      List.map_singleton, ← List.append_assoc, BTreeMap.tabulate_concat]
    simp only [bind, Except.bind, List.foldlM_cons, List.foldlM_nil, store, hx.1, hx.2, okOr_some]
    rfl

theorem store_of_decode_none {α : Type} {decode : Bytes → Option α} {m : UInt16 × Bytes}
    (h : decode m.2 = none) (map : BTreeMap (Identifier F) α) :
    ∃ e, store decode map m = .error e := by
  unfold store
  rw [h]
  cases (Identifier.tryFrom m.1 : Option (Identifier F)) with
  | none => exact ⟨_, rfl⟩
  | some id => exact ⟨_, rfl⟩

theorem sendRound2_done {idMap : IdMap} (number : Identifier F → UInt16)
    (data : Round2Package F → Bytes) {l : List (Identifier F × Round2Package F)}
    (h : ∀ e ∈ l, lookupU16 core idMap e.1 = .ok (number e.1) ∧
      core.serializeRound2 e.2 = some (data e.2)) (t : List Bytes) :
    (sendRound2 core idMap l).eval t = some (.ok (), t) ∧
      (sendRound2 core idMap l).outs t = l.map fun e => u16ToLeBytes (number e.1) ++ data e.2 := by
  induction l with
  | nil => exact ⟨rfl, rfl⟩
  | cons e l ih =>
    obtain ⟨hn, hd⟩ := h e List.mem_cons_self
    obtain ⟨h₁, h₂⟩ := ih fun e he => h e (List.mem_cons_of_mem _ he)
    obtain ⟨id, pkg⟩ := e
    simp only [sendRound2, hn, hd, okOr_some, Proc.monadLift_eq, Proc.lift_ok, Proc.ret_bind,
      FrostChannel.sendTo, Proc.output, Proc.emit_bind, Proc.eval_emit, Proc.outs_emit, h₁, h₂,
      List.map_cons, and_self]

/-- A round in which a session stores a message from each other party beside its own entry,
if it has one, and goes on with the map of them all. No message of a later round decodes. -/
theorem follows_store {α β : Type} {decode : Bytes → Option α} {ident : UInt16 → Identifier F}
    (val : UInt16 → α) (own ids : List UInt16) {ph : Phase UInt16 Bytes Bytes}
    {phases : List (Phase UInt16 Bytes Bytes)} {fin : List Bytes} {b : β} {body : Ceremony β}
    (f : BTreeMap (Identifier F) α → Ceremony β)
    (hbody : ∀ h, body.eval h = (FrostChannel.recvEach ph.senders.card
        (BTreeMap.tabulate ident val own) (store decode) >>= f).eval h ∧
      body.outs h = ph.writes ++ (FrostChannel.recvEach ph.senders.card
        (BTreeMap.tabulate ident val own) (store decode) >>= f).outs h)
    (htry : ∀ s ∈ ph.senders, Identifier.tryFrom s = some (ident s))
    (hdec : ∀ s ∈ ph.senders, decode (ph.message s) = some (val s))
    (hinj : BTreeMap.Injective ident ids) (hids : ∀ s, s ∈ ids ↔ s ∈ own ∨ s ∈ ph.senders)
    (hlater : ∀ ph' ∈ phases, ∀ s ∈ ph'.senders, decode (ph'.message s) = none)
    (hrest : Follows FrostChannel.frame phases fin b (f (BTreeMap.tabulate ident val ids))) :
    Follows FrostChannel.frame (ph :: phases) fin b body := by
  have hfold : ∀ log, Collects ph log →
      (log.map FrostChannel.frame).foldlM (fun m f => store decode m (unframe f))
        (BTreeMap.tabulate ident val own) =
        .ok (BTreeMap.tabulate ident val (own ++ log.map Prod.fst)) := by
    intro log hcol
    rw [FrostChannel.foldlM_frames]
    refine foldlM_store own fun x hx => ?_
    obtain ⟨hs, hm⟩ := hcol.mem x hx
    exact ⟨htry x.1 hs, hm ▸ hdec x.1 hs⟩
  refine Follows.of_collect (fun m f => store decode m (unframe f))
    (BTreeMap.tabulate ident val own) f hbody (fun log hcol => ⟨_, hfold log hcol⟩) ?_ ?_
  · intro log hcol hlen map hmap
    rw [hfold log hcol] at hmap
    obtain rfl := Except.ok.inj hmap
    have hmem : ∀ s, s ∈ ids ↔ s ∈ own ++ log.map Prod.fst := by
      intro s
      rw [hids, List.mem_append]
      refine or_congr_right ⟨hcol.mem_of_full hlen, fun hs => ?_⟩
      obtain ⟨x, hx, rfl⟩ := List.mem_map.mp hs
      exact (hcol.mem x hx).1
    rwa [← BTreeMap.tabulate_eq_of_mem_iff hinj hmem]
  · intro log hcol hlt map hmap ph' hph' s hs
    refine store_of_decode_none ?_ _
    rw [FrostChannel.unframe_frame]
    exact hlater ph' hph' s hs

/-! ## An honest session -/

theorem flatMap_ite_eq {α : Type} (f : UInt16 → α) {l : List UInt16} (hn : l.Nodup) {r : UInt16}
    (hr : r ∈ l) : (l.flatMap fun q => if q = r then [f q] else []) = [f r] := by
  induction l with
  | nil => simp at hr
  | cons x l ih =>
    obtain ⟨hx, hn⟩ := List.nodup_cons.mp hn
    rw [List.flatMap_cons]
    rcases List.mem_cons.mp hr with rfl | hr
    · have hnil : (l.flatMap fun q => if q = r then [f q] else []) = [] := by
        rw [List.flatMap_eq_nil_iff]
        intro q hq
        exact if_neg fun h : q = r => hx (h ▸ hq)
      rw [if_pos rfl, hnil, List.append_nil]
    · have hne : x ≠ r := fun h => hx (h ▸ hr)
      rw [if_neg hne, List.nil_append, ih hn hr]

namespace Deal

variable {maxSigners minSigners : UInt16} (deal : Deal core maxSigners minSigners)

/-- The number under which a session sends to an identifier. -/
def numberIn (core : FrostCore F G Rng) (idMap : IdMap) (id : Identifier F) : UInt16 :=
  (idMap.lookup (core.serializeIdentifier id)).getD 0

def round2Writes (idMap : IdMap) (p : UInt16) : List Bytes :=
  (deal.sent2Map p).toList.map fun e =>
    u16ToLeBytes (numberIn core idMap e.1) ++ (core.serializeRound2 e.2).getD []

def round2Phase (idMap : IdMap) (p : UInt16) : Phase UInt16 Bytes Bytes :=
  ⟨deal.round2Writes idMap p, (deal.others p).toFinset, fun s => deal.round2Bytes s p⟩

/-- The two rounds of `p`, when `bytes` are everyone's encoded round-1 packages. -/
def rounds (bytes : UInt16 → Bytes) (idMap : IdMap) (p : UInt16) :
    List (Phase UInt16 Bytes Bytes) :=
  [⟨[u16ToLeBytes 0 ++ bytes p], (deal.others p).toFinset, bytes⟩, deal.round2Phase idMap p]

variable {deal} {p s : UInt16} {bytes : UInt16 → Bytes} {idMap : IdMap}

theorem card_others (hp : p ∈ deal.ids) :
    (deal.others p).toFinset.card = (maxSigners - 1).toNat := by
  rw [List.toFinset_card_of_nodup nodup_others, length_others hp]

theorem sendRound2_deal (doc : core.Documented) (p : UInt16)
    (hlookup : ∀ s ∈ deal.ids, lookupU16 core idMap (deal.ident s) = .ok s) (t : List Bytes) :
    (sendRound2 core idMap (deal.sent2Map p).toList).eval t = some (.ok (), t) ∧
      (sendRound2 core idMap (deal.sent2Map p).toList).outs t = deal.round2Writes idMap p := by
  refine sendRound2_done (numberIn core idMap) (fun pkg => (core.serializeRound2 pkg).getD [])
    (fun e he => ?_) t
  obtain ⟨id, pkg⟩ := e
  rw [Std.ExtTreeMap.mem_toList_iff_getElem?_eq_some, sent2Map,
    BTreeMap.getElem?_tabulate (others_injective doc)] at he
  obtain ⟨s, hs, rfl, rfl⟩ := he
  have hl := hlookup s (mem_others.mp hs).2
  have hnum : numberIn core idMap (deal.ident s) = s := by
    rw [lookupU16, okOr_eq_ok] at hl
    rw [numberIn, hl]
    rfl
  refine ⟨hnum.symm ▸ hl, ?_⟩
  exact (deserializeRound2_bytes doc deal p s).1

theorem follows_finishRounds (doc : core.Documented) (hmin : minSigners ≠ 0) (hp : p ∈ deal.ids)
    (hlookup : ∀ s ∈ deal.ids, lookupU16 core idMap (deal.ident s) = .ok s) :
    Follows FrostChannel.frame [deal.round2Phase idMap p] [] (deal.key p, deal.publicKey p)
      (finishRounds core maxSigners idMap (deal.secret p) (deal.round1Map p)) := by
  have hcard := card_others hp
  let finish := fun m : BTreeMap (Identifier F) (Round2Package F) =>
    (Proc.lift (blameErr core .dkgError (core.part3 (deal.secret2 p) (deal.round1Map p) m)) :
      Ceremony _)
  have hbody : finishRounds core maxSigners idMap (deal.secret p) (deal.round1Map p) =
      sendRound2 core idMap (deal.sent2Map p).toList >>= fun _ =>
        FrostChannel.recvEach (deal.others p).toFinset.card ∅ (store core.deserializeRound2) >>=
          finish := by
    unfold finishRounds
    rw [part2_ok doc hp, hcard]
    rfl
  refine follows_store (fun s => deal.round2Package s p) [] (deal.others p) finish ?_
    (fun s hs => deal.tryFrom s (mem_others.mp (List.mem_toFinset.mp hs)).2)
    (fun s _ => (deserializeRound2_bytes doc deal s p).2) (others_injective doc)
    (fun s => by simp [round2Phase]) (fun ph' hph' => absurd hph' List.not_mem_nil) ?_
  · intro h
    obtain ⟨hsend, houts⟩ := sendRound2_deal doc p hlookup h
    rw [hbody, Proc.eval_bind_of_ok hsend, Proc.outs_bind_of_ok hsend, houts]
    exact ⟨rfl, rfl⟩
  · have hpart3 := part3_ok doc hmin hp
    rw [round2Map] at hpart3
    simp only [finish, hpart3, blameErr_ok, Proc.lift_ok]
    exact ⟨rfl, rfl⟩

theorem follows_rounds (doc : core.Documented) (hmin : minSigners ≠ 0) (hp : p ∈ deal.ids)
    (hbytes : ∀ s ∈ deal.ids, core.serializeRound1 (deal.package s) = some (bytes s))
    (hlookup : ∀ s ∈ deal.ids, lookupU16 core idMap (deal.ident s) = .ok s) :
    Follows FrostChannel.frame (deal.rounds bytes idMap p) [] (deal.key p, deal.publicKey p)
      (runRounds core maxSigners idMap (deal.secret p) (bytes p)) := by
  have hcard := card_others hp
  have hmem : ∀ s ∈ (deal.others p).toFinset, s ∈ deal.ids := fun s hs =>
    (mem_others.mp (List.mem_toFinset.mp hs)).2
  unfold runRounds
  refine follows_store deal.package [] (deal.others p)
    (fun r1 => finishRounds core maxSigners idMap (deal.secret p) r1)
    (fun h => ⟨by rw [hcard]; rfl, by rw [hcard]; rfl⟩)
    (fun s hs => deal.tryFrom s (hmem s hs))
    (fun s hs => doc.round1_roundtrip _ _ (hbytes s (hmem s hs))) (others_injective doc)
    (fun s => by simp) ?_ (follows_finishRounds doc hmin hp hlookup)
  intro ph' hph' s hs
  obtain rfl := List.mem_singleton.mp hph'
  exact doc.round2_not_round1 _ _ (deserializeRound2_bytes doc deal s p).1

/-- What an honest session writes for another party is what that party's phases expect. -/
theorem copies_rounds (doc : core.Documented) {s r : UInt16} (hs : s ∈ deal.ids)
    (hr : r ∈ deal.ids) (hne : r ≠ s)
    (hlookup : ∀ s ∈ deal.ids, lookupU16 core idMap (deal.ident s) = .ok s) :
    Net.copies deal.ids.toFinset s r (written (deal.rounds bytes idMap s) []) =
      expected (deal.rounds bytes idMap r) s := by
  have hrs : r ∈ deal.others s := mem_others.mpr ⟨hne, hr⟩
  have hsr : s ∈ deal.others r := mem_others.mpr ⟨hne.symm, hs⟩
  have hri : r ∈ deal.ids.toFinset := List.mem_toFinset.mpr hr
  have hzero : ∀ q ∈ deal.ids, q ≠ 0 := fun q hq => doc.ne_zero_of_tryFrom (deal.tryFrom q hq)
  have hnum : ∀ q ∈ deal.ids, numberIn core idMap (deal.ident q) = q := by
    intro q hq
    have hl := hlookup q hq
    rw [lookupU16, okOr_eq_ok] at hl
    rw [numberIn, hl]
    rfl
  have hround2 : (deal.round2Writes idMap s).flatMap (Net.route deal.ids.toFinset s r) =
      [deal.round2Bytes s r] := by
    have hlist : (deal.sent2Map s).toList.Perm
        ((deal.others s).map fun q => (deal.ident q, deal.round2Package s q)) :=
      BTreeMap.toList_tabulate_perm (others_injective doc) nodup_others
    have hperm := (hlist.map fun e => u16ToLeBytes (numberIn core idMap e.1) ++
      (core.serializeRound2 e.2).getD []).flatMap_right (Net.route deal.ids.toFinset s r)
    have hone : ((deal.others s).flatMap fun q => Net.route deal.ids.toFinset s r
        (u16ToLeBytes (numberIn core idMap (deal.ident q)) ++ deal.round2Bytes s q)) =
        [deal.round2Bytes s r] := by
      rw [← flatMap_ite_eq (deal.round2Bytes s) nodup_others hrs]
      refine List.flatMap_congr fun q hq => ?_
      have hq' := (mem_others.mp hq).2
      rw [hnum q hq', Net.route_sendTo hri hne (hzero q hq')]
    simp only [List.flatMap_map] at hperm
    rw [round2Writes, List.flatMap_map]
    exact List.perm_singleton.mp (hperm.trans (List.Perm.of_eq hone))
  have hwritten : written (deal.rounds bytes idMap s) [] =
      (u16ToLeBytes 0 ++ bytes s) :: deal.round2Writes idMap s := by
    simp [written, rounds, round2Phase]
  unfold Net.copies at hround2 ⊢
  rw [hwritten, List.flatMap_cons, hround2, Net.route_broadcast hri hne]
  simp [expected, rounds, round2Phase, hsr]

end Deal

end Ceremony
