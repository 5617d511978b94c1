import FrostZm.Ceremony.Contributions

/-!
# What a finished session has sent

A party that has ended well sent everyone else its package, one share and whatever follows its
rounds, in this order.
-/

open FrostChannel Phases

set_option linter.unusedSectionVars false

variable {F G Rng : Type} [Field F] [DecidableEq F] [Ord F] [Std.TransOrd F] [Std.LawfulEqOrd F]
  [AddCommGroup G] [Module F G]

namespace Ceremony

variable {core : FrostCore F G Rng} {α β : Type} [Inhabited α] {n minSigners p q r : UInt16}
  {decode : Bytes → Option α} {project : α → Round1Package F G} {l₁ l₂ log : List (UInt16 × Bytes)}
  {keys : KeyPackage F G × PublicKeyPackage F G} {b : β} {idMap : IdMap}

/-! ## Reading on -/

theorem foldlM_store_of_readable (doc : core.Documented) (h : Readable decode log) :
    log.foldlM (store decode) (∅ : BTreeMap (Identifier F) α) = .ok (stored decode log) := by
  induction log using List.reverseRecOn with
  | nil => rfl
  | append_singleton log m ih =>
    obtain ⟨hne, hsome⟩ := h m (List.mem_append_right _ List.mem_cons_self)
    obtain ⟨a, ha⟩ := Option.isSome_iff_exists.mp hsome
    rw [List.foldlM_append, ih fun x hx => h x (List.mem_append_left _ hx), stored, stored,
      BTreeMap.tabulate_concat]
    simp only [bind, Except.bind, List.foldlM_cons, List.foldlM_nil, store,
      tryFrom_senderId doc hne, ha, okOr_some, Option.getD_some]
    rfl

theorem recvEach_store_of_readable (doc : core.Documented) (h : Readable decode l₁) {k : ℕ}
    (hlen : l₁.length = k) (log : List (UInt16 × Bytes)) :
    (recvEach k (∅ : BTreeMap (Identifier F) α) (store decode)).eval ((l₁ ++ log).map frame) =
      some (.ok (stored decode l₁), log.map frame) := by
  refine Proc.eval_collect_ok_iff.mpr ⟨l₁.map frame, List.map_append, ?_, ?_⟩
  · rw [List.length_map, hlen]
  · rw [foldlM_frames]
    exact foldlM_store_of_readable doc h

/-! ## The shares -/

/-- The share of `r` on the polynomial of an opening, as it is sent. -/
def Opening.shareFor (o : Opening core decode project n minSigners p) (r : UInt16) : Bytes :=
  (core.serializeRound2 ⟨Shamir.evalPoly o.secret1.coefficients (senderId r : Identifier F).toScalar⟩).getD
    []

theorem lookup_senderId (doc : core.Documented) (hmap : buildIdMap core n = .ok idMap)
    (hr : r ∈ upTo n) : lookupU16 core idMap (senderId r) = .ok r := by
  have hsenders : ∀ p ∈ upTo n, Identifier.tryFrom p = some (senderId p : Identifier F) :=
    fun p hp => tryFrom_senderId doc (mem_upTo.mp hp).1
  obtain ⟨idMap', hmap', hlookup⟩ := buildIdMap_ok doc hsenders
  obtain rfl := Except.ok.inj (hmap.symm.trans hmap')
  exact hlookup r hr

section Sent

variable {o : Opening core decode project n minSigners p}

theorem RoundsOver.outs_sendRound2 (doc : core.Documented) (h : RoundsOver o l₁ l₂ keys)
    (hothers : ∀ m ∈ l₁, m.1 ≠ p) {secret2 : Round2SecretPackage F G}
    {sent : BTreeMap (Identifier F) (Round2Package F)}
    (hpart2 : core.part2 o.secret1 ((stored decode l₁).map fun _ => project) = .ok (secret2, sent))
    (t : List Bytes) :
    (sendRound2 core o.idMap sent.toList).eval t = some (.ok (), t) ∧
      ((sendRound2 core o.idMap sent.toList).outs t).Perm
        (l₁.map fun m => u16ToLeBytes m.1 ++ o.shareFor m.1) := by
  obtain ⟨-, hsent⟩ := doc.part2_eq _ _ _ _ hpart2
  have hinj := injective_senderId doc h.readable₁ (h.nodup₁ doc hothers)
  have hperm : sent.toList.Perm (l₁.map fun m => ((senderId m.1 : Identifier F),
      (⟨Shamir.evalPoly o.secret1.coefficients (senderId m.1 : Identifier F).toScalar⟩ :
        Round2Package F))) := by
    rw [hsent, stored, BTreeMap.map_tabulate _ hinj, BTreeMap.map_tabulate _ hinj]
    exact BTreeMap.toList_tabulate_perm hinj (List.Nodup.of_map _ (h.nodup₁ doc hothers))
  have hnumber : ∀ m ∈ l₁, lookupU16 core o.idMap (senderId m.1) = .ok m.1 := fun m hm =>
    lookup_senderId doc o.idMap_eq (h.numbered doc m hm)
  have hnumberIn : ∀ m ∈ l₁, Deal.numberIn core o.idMap (senderId m.1) = m.1 := by
    intro m hm
    have hlookup := hnumber m hm
    rw [lookupU16, okOr_eq_ok] at hlookup
    rw [Deal.numberIn, hlookup, Option.getD_some]
  obtain ⟨heval, houts⟩ := sendRound2_done (Deal.numberIn core o.idMap)
    (fun pkg => (core.serializeRound2 pkg).getD []) (l := sent.toList) (fun e he => by
      obtain ⟨m, hm, rfl⟩ := List.mem_map.mp (hperm.mem_iff.mp he)
      obtain ⟨data, hdata⟩ := doc.round2_ok
        ⟨Shamir.evalPoly o.secret1.coefficients (senderId m.1 : Identifier F).toScalar⟩
      rw [hnumberIn m hm, hdata]
      exact ⟨hnumber m hm, rfl⟩) t
  refine ⟨heval, ?_⟩
  rw [houts]
  refine (hperm.map _).trans (List.Perm.of_eq ?_)
  rw [List.map_map]
  refine List.map_congr_left fun m hm => ?_
  rw [Function.comp_apply, hnumberIn m hm]
  rfl

theorem RoundsOver.outs_rounds (doc : core.Documented) (h : RoundsOver o l₁ l₂ keys)
    (hothers : ∀ m ∈ l₁, m.1 ≠ p)
    (f : BTreeMap (Identifier F) α → KeyPackage F G × PublicKeyPackage F G → Ceremony β)
    (log : List (UInt16 × Bytes)) :
    ∃ shares : List Bytes, shares.Perm (l₁.map fun m => u16ToLeBytes m.1 ++ o.shareFor m.1) ∧
      (o.rounds f).outs ((l₁ ++ (l₂ ++ log)).map frame) =
        (u16ToLeBytes 0 ++ o.r1Bytes) ::
          (shares ++ (f (stored decode l₁) keys).outs (log.map frame)) := by
  obtain ⟨secret2, sent, hpart2, -, hpart3⟩ := h.keysOf
  obtain ⟨hsend, hperm⟩ := h.outs_sendRound2 doc hothers hpart2 ((l₂ ++ log).map frame)
  refine ⟨_, hperm, ?_⟩
  have hread₁ := recvEach_store_of_readable doc h.readable₁ h.length₁ (l₂ ++ log)
  have hread₂ := recvEach_store_of_readable doc h.readable₂ h.length₂ log
  have hnone : ∀ (k : ℕ) {γ : Type} (g : Bytes → Option γ) (t : List Bytes),
      (recvEach k (∅ : BTreeMap (Identifier F) γ) (store g)).outs t = [] :=
    fun k γ g t => Proc.outs_collect k ∅ t
  have hfinish : finishRounds core n o.idMap o.secret1 ((stored decode l₁).map fun _ => project) =
      sendRound2 core o.idMap sent.toList >>= fun _ =>
        recvEach (n - 1).toNat ∅ (store core.deserializeRound2) >>= fun m =>
          liftM (blameErr core .dkgError
            (core.part3 secret2 ((stored decode l₁).map fun _ => project) m)) := by
    unfold finishRounds
    rw [hpart2]
    rfl
  have hkeys : (finishRounds core n o.idMap o.secret1 ((stored decode l₁).map fun _ => project)).eval
      ((l₂ ++ log).map frame) = some (.ok keys, log.map frame) := by
    rw [hfinish, Proc.eval_bind_of_ok hsend, Proc.eval_bind_of_ok hread₂, hpart3]
    rfl
  unfold Opening.rounds roundsWith broadcast Proc.output
  rw [Proc.emit_bind, Proc.outs_emit, Proc.ret_bind, Proc.outs_bind_of_ok hread₁, hnone,
    List.nil_append, Proc.outs_bind_of_ok hkeys, hfinish, Proc.outs_bind_of_ok hsend,
    Proc.outs_bind_of_ok hread₂, hnone, Proc.liftM_eq, Proc.outs_lift, List.nil_append,
    List.append_nil]

theorem RoundsOver.copies_rounds (doc : core.Documented) (h : RoundsOver o l₁ l₂ keys)
    (hothers : ∀ m ∈ l₁, m.1 ≠ p) {ids : Finset UInt16} (hr : r ∈ ids) (hsender : r ∈ l₁.map Prod.fst)
    (f : BTreeMap (Identifier F) α → KeyPackage F G × PublicKeyPackage F G → Ceremony β)
    (log : List (UInt16 × Bytes)) :
    Net.copies ids p r ((o.rounds f).outs ((l₁ ++ (l₂ ++ log)).map frame)) =
      o.r1Bytes :: o.shareFor r ::
        Net.copies ids p r ((f (stored decode l₁) keys).outs (log.map frame)) := by
  obtain ⟨m, hm, rfl⟩ := List.mem_map.mp hsender
  have hne := hothers m hm
  obtain ⟨shares, hperm, houts⟩ := h.outs_rounds doc hothers f log
  have hcopies : Net.copies ids p m.1 shares = [o.shareFor m.1] := by
    have hall : Net.copies ids p m.1 (l₁.map fun m => u16ToLeBytes m.1 ++ o.shareFor m.1) =
        (l₁.map Prod.fst).flatMap fun q => if q = m.1 then [o.shareFor q] else [] := by
      rw [Net.copies, List.flatMap_map, List.flatMap_map]
      refine List.flatMap_congr fun x hx => ?_
      exact Net.route_sendTo hr hne (h.readable₁ x hx).1 _
    rw [flatMap_ite_eq _ (h.nodup₁ doc hothers) hsender] at hall
    exact List.perm_singleton.mp (hall ▸ hperm.flatMap_right _)
  rw [houts, Net.copies, List.flatMap_cons, Net.route_broadcast hr hne, List.flatMap_append]
  exact congrArg _ (congrArg (· ++ _) hcopies)

end Sent

end Ceremony
