import FrostZm.Ceremony.Quorums
import FrostZm.Ceremony.Writes
import FrostZm.Frozt.ImportRuns
import FrostZm.Frozt.Reference

/-!
# Whose metadata is stored

A corrupt coordinator may send each party metadata of its own. The hashes that everyone compares
behind it tell them apart as long as no two of them come from one party.
-/

open Ceremony FrostChannel Phases

set_option linter.unusedSectionVars false

variable {F G Rng : Type} [Field F] [DecidableEq F] [Ord F] [Std.TransOrd F] [Std.LawfulEqOrd F]
  [AddCommGroup G] [Module F G]

namespace Frozt

variable (lib : FroztLib F G Rng)

/-- The extras and the birthday in a stored bundle. -/
def storedMetadata (out : Bytes) : Option (Bytes × UInt64) :=
  (KeyShareBundle.deserialize lib out).toOption.map fun bundle =>
    (bundle.saplingExtras, bundle.birthday)

/-- The blob with the given extras and birthday. -/
def metadataOf (metadata : Bytes × UInt64) : Bytes :=
  metadataVersion :: u64ToLeBytes metadata.2 ++ metadata.1

/-- Two different blobs with one hash. -/
def Collision (blob blob' : Bytes) : Prop := blob ≠ blob' ∧ lib.blake2b blob = lib.blake2b blob'

variable {lib} {n minSigners p q : UInt16}

theorem u64ToLeBytes_fromLeBytes {b : Bytes} (h : b.length = 8) :
    u64ToLeBytes (u64FromLeBytes b) = b := by
  have hlt := LittleEndian.value_lt b
  rw [h] at hlt
  rw [u64ToLeBytes, u64FromLeBytes, UInt64.toNat_ofNat_of_lt' hlt]
  have hb := LittleEndian.bytesOf_value b
  rwa [h] at hb

theorem eq_metadataOf {blob : Bytes} {metadata : Bytes × UInt64}
    (h : metadataParse blob = .ok metadata) : blob = metadataOf metadata := by
  unfold metadataParse at h
  split at h
  · cases h
  next hlen =>
  split at h
  · cases h
  next hhead =>
  rw [not_not] at hlen hhead
  obtain rfl := Except.ok.inj h
  cases blob with
  | nil => cases hhead
  | cons v t =>
    obtain rfl := Option.some.inj hhead
    rw [List.length_cons, metadataLength] at hlen
    have ht : t.length = 104 := by omega
    unfold metadataOf slice
    rw [u64ToLeBytes_fromLeBytes (by simp [ht]), List.drop_succ_cons, List.drop_zero, List.cons_append,
      show (9 : ℕ) = 8 + 1 from rfl, List.drop_succ_cons,
      List.take_of_length_le (by simp [ht] : (t.drop 8).length ≤ 96), List.take_append_drop]

/-! ## The sessions -/

theorem stores_dkgMetadata (doc : lib.Documented) (n : UInt16) (birthday : UInt64)
    (isCoordinator : Bool) (rng : Rng) :
    Stores (storedKeys lib) fun (_ : BTreeMap (Identifier F) (Round1Package F G)) keys =>
      dkgMetadata lib n birthday isCoordinator rng keys.1 keys.2 := by
  intro r1Map keys log out rest h
  obtain ⟨blob, log₁, -, h⟩ := Proc.eval_bind_ok.mp h
  rw [Proc.liftM_eq, Proc.eval_lift, Option.some.injEq, Prod.mk.injEq] at h
  obtain ⟨extras, birthday, -, hread⟩ := deserialize_packBundle doc h.1
  rw [storedKeys, hread]
  rfl

theorem froztDkgRun_opens (doc : lib.Documented) (n minSigners p : UInt16) (birthday : UInt64)
    (isCoordinator : Bool) (rng rng' : Rng) :
    Opens lib.toFrostCore lib.deserializeRound1 id n minSigners p
      (fun _ => 2 ≤ minSigners ∧ minSigners ≤ n)
      (fun _ keys => dkgMetadata lib n birthday isCoordinator rng' keys.1 keys.2)
      (froztDkgRun lib p n minSigners birthday isCoordinator rng rng') := by
  rw [froztDkgRun_eq]
  exact (dkgRun_opens doc.toCore n minSigners p rng _).mono fun o ho => ho.1

/-! ## How a session agrees -/

section Agree

variable {failure : LibError} {create : Option (Result Bytes)} {g : Bytes → Ceremony Bytes}
  {log l₀ l₃ : List (UInt16 × Bytes)} {rest : List Bytes} {out blob : Bytes}

/-- What a session has read of the metadata: `l₀` before its hash and `l₃` behind it. -/
structure Agreed (lib : FroztLib F G Rng) (n : UInt16) (create : Option (Result Bytes))
    (l₀ l₃ : List (UInt16 × Bytes)) (blob : Bytes) : Prop where
  read : if create.isSome then l₀ = [] else ∃ s, l₀ = [(s, blob)]
  length : l₃.length = (n - 1).toNat
  blobLength : blob.length = metadataLength
  hashes : ∀ m ∈ l₃, m.2 = lib.blake2b blob

/-- What a session sends of the metadata. -/
def announcement (lib : FroztLib F G Rng) (create : Option (Result Bytes)) (blob : Bytes) :
    List Bytes :=
  if create.isSome then [blob, lib.blake2b blob] else [lib.blake2b blob]

theorem foldlM_compareHash_ok {hash : Bytes}
    (h : l₃.foldlM (compareHash failure hash) () = .ok ()) : ∀ m ∈ l₃, m.2 = hash := by
  induction l₃ with
  | nil => exact fun m hm => absurd hm List.not_mem_nil
  | cons m l ih =>
    rw [List.foldlM_cons] at h
    obtain ⟨⟨⟩, hm, h⟩ := bind_eq_ok.mp h
    rw [List.forall_mem_cons]
    refine ⟨?_, ih h⟩
    unfold compareHash at hm
    split at hm
    · cases hm
    · next hsame =>
      rw [not_or, not_not, not_not] at hsame
      exact hsame.2

theorem agreeHashes_ok {blob : Bytes}
    (h : ((liftM (metadataHash lib blob) : Ceremony Bytes) >>= fun hash => broadcast hash >>= fun _ =>
      recvEach (n - 1).toNat () (compareHash failure hash) >>= fun _ => g blob).eval (log.map frame) =
        some (.ok out, rest)) :
    blob.length = metadataLength ∧ ∃ l₃ log', log = l₃ ++ log' ∧ l₃.length = (n - 1).toNat ∧
      (∀ m ∈ l₃, m.2 = lib.blake2b blob) ∧ (g blob).eval (log'.map frame) = some (.ok out, rest) ∧
      ((liftM (metadataHash lib blob) : Ceremony Bytes) >>= fun hash => broadcast hash >>= fun _ =>
        recvEach (n - 1).toNat () (compareHash failure hash) >>= fun _ => g blob).outs (log.map frame) =
          (u16ToLeBytes 0 ++ lib.blake2b blob) :: (g blob).outs (log'.map frame) := by
  obtain ⟨hash, hhash, h⟩ := Proc.eval_liftM_bind_ok.mp h
  obtain ⟨hlen, rfl⟩ := length_of_metadataHash hhash
  refine ⟨hlen, ?_⟩
  obtain ⟨⟨⟩, log₁, hbroad, h⟩ := Proc.eval_bind_ok.mp h
  obtain ⟨-, rfl⟩ := Prod.mk.inj (Option.some.inj hbroad)
  obtain ⟨⟨⟩, log₂, hloop, h⟩ := Proc.eval_bind_ok.mp h
  have hread := hloop
  obtain ⟨fs, happ, hcount, hfold⟩ := Proc.eval_collect_ok_iff.mp hloop
  obtain ⟨l₃, log', rfl, rfl, rfl⟩ := List.map_eq_append_iff.mp happ
  rw [foldlM_frames] at hfold
  refine ⟨l₃, log', rfl, by simpa using hcount, foldlM_compareHash_ok hfold, h, ?_⟩
  rw [hhash, Proc.liftM_eq, Proc.lift_ok, Proc.ret_bind]
  unfold broadcast Proc.output
  rw [Proc.emit_bind, Proc.outs_emit, Proc.ret_bind, Proc.outs_bind_of_ok hread]
  rw [show (recvEach (n - 1).toNat () (compareHash failure (lib.blake2b blob))).outs _ = [] from
    Proc.outs_collect _ _ _, List.nil_append]

theorem agreeMetadata_ok (h : (agreeMetadata lib failure n create >>= g).eval (log.map frame) =
      some (.ok out, rest)) :
    ∃ blob l₀ l₃ log', log = l₀ ++ (l₃ ++ log') ∧ Agreed lib n create l₀ l₃ blob ∧
      (g blob).eval (log'.map frame) = some (.ok out, rest) ∧
      (agreeMetadata lib failure n create >>= g).outs (log.map frame) =
        (announcement lib create blob).map (u16ToLeBytes 0 ++ ·) ++
          (g blob).outs (log'.map frame) := by
  have hbind : agreeMetadata lib failure n create >>= g = shareMetadata create >>= fun blob =>
      (liftM (metadataHash lib blob) : Ceremony Bytes) >>= fun hash => broadcast hash >>= fun _ =>
        recvEach (n - 1).toNat () (compareHash failure hash) >>= fun _ => g blob := by
    unfold agreeMetadata
    simp only [Proc.bind_bind, Proc.pure_eq, Proc.ret_bind]
  rw [hbind] at h ⊢
  cases create with
  | some x =>
    unfold shareMetadata broadcast Proc.output at h ⊢
    cases x with
    | error e => cases h
    | ok blob =>
      obtain ⟨hlen, l₃, log', rfl, hcount, hhashes, hrest, houts⟩ := agreeHashes_ok (g := g) h
      exact ⟨blob, [], l₃, log', rfl, ⟨rfl, hcount, hlen, hhashes⟩, hrest, congrArg _ houts⟩
  | none =>
    cases log with
    | nil => cases h
    | cons m log =>
      obtain ⟨s, blob⟩ := m
      unfold shareMetadata recv Proc.input at h ⊢
      simp only [Proc.recv_bind, Proc.ret_bind, Proc.pure_eq, List.map_cons, Proc.eval_recv_cons,
        Proc.outs_recv_cons, unframe_frame] at h ⊢
      obtain ⟨hlen, l₃, log', rfl, hcount, hhashes, hrest, houts⟩ := agreeHashes_ok (g := g) h
      exact ⟨blob, [(s, blob)], l₃, log', rfl, ⟨⟨s, rfl⟩, hcount, hlen, hhashes⟩, hrest, houts⟩

end Agree

/-! ## What a party that has ended well has read and sent -/

/-- The messages that `p` has read: two rounds, what comes before its hash, the hashes of the
others and the rest. -/
structure Compared (lib : FroztLib F G Rng) (n : UInt16) (create : Option (Result Bytes))
    (net : Net Bytes) (sent : UInt16 → List Bytes) (p : UInt16)
    (l₁ l₂ l₀ l₃ log : List (UInt16 × Bytes)) (blob : Bytes) : Prop where
  fed : net.fed p = l₁ ++ (l₂ ++ (l₀ ++ (l₃ ++ log)))
  length₁ : l₁.length = (n - 1).toNat
  length₂ : l₂.length = (n - 1).toNat
  once₁ : ∀ q ∈ upTo n, q ≠ p → ∃ m, sentBy q l₁ = [m]
  once₂ : ∀ q ∈ upTo n, q ≠ p → ∃ m, sentBy q l₂ = [m]
  agreed : Agreed lib n create l₀ l₃ blob
  /-- Of its own it has sent two messages and then its announcement. -/
  sends : ∀ r ∈ upTo n, r ≠ p → ∃ package share more,
    sent r = package :: share :: (announcement lib create blob ++ more)

theorem exists_sentBy {s : UInt16} {l : List (UInt16 × Bytes)} (hnodup : (l.map Prod.fst).Nodup)
    (hs : s ∈ l.map Prod.fst) : ∃ m, sentBy s l = [m] := by
  obtain ⟨m, hm, rfl⟩ := List.mem_map.mp hs
  exact ⟨m.2, sentBy_of_nodup hnodup hm⟩

theorem compared (doc : lib.Documented) {w : Setting} (hids : w.ids = (upTo n).toFinset)
    {property : (q : UInt16) → Opening lib.toFrostCore lib.deserializeRound1 id n minSigners q → Prop}
    {failure : LibError} {create : UInt16 → Option (Result Bytes)}
    {g : UInt16 → KeyPackage F G × PublicKeyPackage F G → Bytes → Ceremony Bytes}
    {body : UInt16 → Ceremony Bytes}
    (hopen : AllOpen w property
      (fun q _ keys => agreeMetadata lib failure n (create q) >>= g q keys) body)
    {acts : List Net.Action} {net : Net Bytes} (hrun : Net.run w body acts = some net)
    (hp : p ∈ w.honestIds) {out : Bytes} (hout : (net.party p).outcome = some (.ok out)) :
    ∃ l₁ l₂ l₀ l₃ log blob keys rest,
      Compared lib n (create p) net (fun r => Net.copies w.ids p r ((body p).outs (net.frames p))) p
        l₁ l₂ l₀ l₃ log blob ∧
      (g p keys blob).eval (log.map frame) = some (.ok out, rest) := by
  obtain ⟨o, l₁, l₂, log, keys, -, hbody, hfin⟩ := hopen.finished hrun hp hout
  have hpn : p ∈ upTo n := by
    have hpid := (Setting.mem_honestIds.mp hp).1
    rwa [hids, List.mem_toFinset] at hpid
  have hover := hfin.roundsOver
  have hsenders : ∀ q ∈ upTo n, q ≠ p → q ∈ l₁.map Prod.fst := by
    intro q hq hne
    rw [← List.mem_toFinset, hover.senders_eq doc.toCore hfin.others hpn]
    exact Finset.mem_erase.mpr ⟨hne, List.mem_toFinset.mpr hq⟩
  obtain ⟨rest, heval⟩ := hfin.ending
  obtain ⟨blob, l₀, l₃, log', rfl, hagreed, hg, houts⟩ := agreeMetadata_ok heval
  refine ⟨l₁, l₂, l₀, l₃, log', blob, keys, rest, ⟨hfin.fed, hover.length₁, hover.length₂, ?_, ?_,
    hagreed, ?_⟩, hg⟩
  · exact fun q hq hne => exists_sentBy (hover.nodup₁ doc.toCore hfin.others) (hsenders q hq hne)
  · exact fun q hq hne => exists_sentBy (hover.nodup₂ doc.toCore hfin.others)
      ((hover.perm doc.toCore hfin.others).mem_iff.mpr (hsenders q hq hne))
  · intro r hr hne
    have hrid : r ∈ w.ids := by rwa [hids, List.mem_toFinset]
    have hcopies := hover.copies_rounds doc.toCore hfin.others hrid (hsenders r hr hne)
      (fun _ keys => agreeMetadata lib failure n (create p) >>= g p keys) (l₀ ++ (l₃ ++ log'))
    have happend : ∀ a b, Net.copies w.ids p r (a ++ b) =
        Net.copies w.ids p r a ++ Net.copies w.ids p r b := fun _ _ => List.flatMap_append
    rw [houts, happend, copies_broadcast hrid hne] at hcopies
    rw [Net.frames, hfin.fed, hbody]
    exact ⟨_, _, _, hcopies⟩

theorem Compared.hash_eq (doc : lib.Documented) {create create' : Option (Result Bytes)}
    {net : Net Bytes} {sent sent' : UInt16 → List Bytes} {l₁ l₂ l₀ l₃ log : List (UInt16 × Bytes)}
    {l₁' l₂' l₀' l₃' log' : List (UInt16 × Bytes)} {blob blob' : Bytes}
    (h : Compared lib n create net sent p l₁ l₂ l₀ l₃ log blob)
    (h' : Compared lib n create' net sent' q l₁' l₂' l₀' l₃' log' blob')
    (hp : p ∈ upTo n) (hq : q ∈ upTo n) (hne : q ≠ p)
    (hsent : sentBy q (net.fed p) <+: sent' p) (hheard : q ∈ l₃.map Prod.fst) :
    lib.blake2b blob = lib.blake2b blob' := by
  obtain ⟨m₁, h₁⟩ := h.once₁ q hq hne
  obtain ⟨m₂, h₂⟩ := h.once₂ q hq hne
  obtain ⟨package, share, more, hcopies⟩ := h'.sends p hp hne.symm
  -- behind its two rounds it goes on with the announcement
  obtain ⟨x, hx, rfl⟩ := List.mem_map.mp hheard
  obtain ⟨hash, t, hhash, hown⟩ : ∃ hash t, sentBy x.1 l₃ = hash :: t ∧ hash = lib.blake2b blob := by
    have hmem : x.2 ∈ sentBy x.1 l₃ :=
      List.mem_map.mpr ⟨x, List.mem_filter.mpr ⟨hx, decide_eq_true rfl⟩, rfl⟩
    obtain ⟨hash, t, heq⟩ := List.exists_cons_of_ne_nil (List.ne_nil_of_mem hmem)
    refine ⟨hash, t, heq, ?_⟩
    have hin : hash ∈ sentBy x.1 l₃ := heq ▸ List.mem_cons_self
    obtain ⟨y, hy, rfl⟩ := List.mem_map.mp hin
    exact h.agreed.hashes y (List.mem_filter.mp hy).1
  have hprefix : sentBy x.1 l₀ ++ (hash :: (t ++ sentBy x.1 log)) <+:
      announcement lib create' blob' ++ more := by
    rw [h.fed, hcopies, sentBy_append, sentBy_append, sentBy_append, sentBy_append, h₁, h₂, hhash]
      at hsent
    exact (List.cons_prefix_cons.mp (List.cons_prefix_cons.mp hsent).2).2
  have hlen := doc.length_blake2b blob
  have hlen' := doc.length_blake2b blob'
  have hblob := h.agreed.blobLength
  have hblob' := h'.agreed.blobLength
  rw [metadataLength] at hblob hblob'
  have hread : sentBy x.1 l₀ = [] ∨ sentBy x.1 l₀ = [blob] := by
    have hread := h.agreed.read
    split at hread
    · exact .inl (hread ▸ rfl)
    · obtain ⟨s, rfl⟩ := hread
      by_cases hs : s = x.1
      · subst hs
        exact .inr (sentBy_cons_self _ _ _)
      · exact .inl (sentBy_cons_of_ne hs _ _)
  unfold announcement at hprefix
  rcases hread with hnil | hblob₀
  · rw [hnil, List.nil_append] at hprefix
    split at hprefix
    · obtain ⟨rfl, -⟩ := List.cons_prefix_cons.mp hprefix
      -- its metadata is no hash
      rw [hown] at hblob'
      omega
    · obtain ⟨rfl, -⟩ := List.cons_prefix_cons.mp hprefix
      exact hown.symm
  · rw [hblob₀] at hprefix
    split at hprefix
    · obtain ⟨-, htail⟩ := List.cons_prefix_cons.mp hprefix
      obtain ⟨rfl, -⟩ := List.cons_prefix_cons.mp htail
      exact hown.symm
    · obtain ⟨rfl, -⟩ := List.cons_prefix_cons.mp hprefix
      -- its hash is no metadata
      omega

/-! ## Agreement -/

/-- The senders of the hashes that `p` compares when `c` makes the metadata. -/
def hashSenders (n c : UInt16) (net : Net Bytes) (p : UInt16) : List UInt16 :=
  (((net.fed p).drop ((n - 1).toNat + (n - 1).toNat + if p = c then 0 else 1)).take
    (n - 1).toNat).map Prod.fst

/-- Parties that follow the protocol and end well hold the same metadata if one of them has
compared a hash of the other, in particular if it has compared one of everyone. -/
def AgreesOnMetadata (lib : FroztLib F G Rng) (w : Setting) (n c : UInt16) (net : Net Bytes) : Prop :=
  ∀ p ∈ w.honestIds, ∀ q ∈ w.honestIds, ∀ out out',
    (net.party p).outcome = some (.ok out) → (net.party q).outcome = some (.ok out') →
    (q ∈ hashSenders n c net p ∨ (hashSenders n c net p).Nodup) →
    ∃ m m', storedMetadata lib out = some m ∧ storedMetadata lib out' = some m' ∧
      (m = m' ∨ Collision lib (metadataOf m) (metadataOf m'))

theorem Compared.hashSenders_eq {create : Option (Result Bytes)} {net : Net Bytes}
    {sent : UInt16 → List Bytes} {l₁ l₂ l₀ l₃ log : List (UInt16 × Bytes)} {blob : Bytes}
    {c : UInt16} (h : Compared lib n create net sent p l₁ l₂ l₀ l₃ log blob)
    (hcreate : create.isSome ↔ p = c) : hashSenders n c net p = l₃.map Prod.fst := by
  have hlen₀ : l₀.length = if p = c then 0 else 1 := by
    have hread := h.agreed.read
    by_cases hpc : p = c
    · rw [if_pos (hcreate.mpr hpc)] at hread
      rw [hread, if_pos hpc]
      rfl
    · rw [if_neg (mt hcreate.mp hpc)] at hread
      obtain ⟨s, rfl⟩ := hread
      rw [if_neg hpc]
      rfl
  unfold hashSenders
  rw [h.fed, ← hlen₀, ← List.append_assoc, ← List.append_assoc, List.drop_left' (by
    rw [List.length_append, List.length_append, h.length₁, h.length₂]),
    List.take_left' h.agreed.length]

theorem agreesOnMetadata (doc : lib.Documented) {w : Setting} (hids : w.ids = (upTo n).toFinset)
    {property : (q : UInt16) → Opening lib.toFrostCore lib.deserializeRound1 id n minSigners q → Prop}
    {failure : LibError} {create : UInt16 → Option (Result Bytes)} {c : UInt16}
    (hcreate : ∀ q, (create q).isSome ↔ q = c)
    {g : UInt16 → KeyPackage F G × PublicKeyPackage F G → Bytes → Ceremony Bytes}
    (hstores : ∀ q keys blob log out rest, (g q keys blob).eval log = some (.ok out, rest) →
      ∃ metadata, metadataParse blob = .ok metadata ∧ storedMetadata lib out = some metadata)
    {body : UInt16 → Ceremony Bytes}
    (hopen : AllOpen w property
      (fun q _ keys => agreeMetadata lib failure n (create q) >>= g q keys) body)
    {acts : List Net.Action} {net : Net Bytes} (hrun : Net.run w body acts = some net) :
    AgreesOnMetadata lib w n c net := by
  intro p hp q hq out out' hout hout' hheard
  obtain ⟨l₁, l₂, l₀, l₃, log, blob, keys, rest, h, hg⟩ := compared doc hids hopen hrun hp hout
  obtain ⟨l₁', l₂', l₀', l₃', log', blob', keys', rest', h', hg'⟩ :=
    compared doc hids hopen hrun hq hout'
  obtain ⟨m, hparse, hm⟩ := hstores _ _ _ _ _ _ hg
  obtain ⟨m', hparse', hm'⟩ := hstores _ _ _ _ _ _ hg'
  refine ⟨m, m', hm, hm', ?_⟩
  by_cases hne : q = p
  · subst hne
    obtain rfl := Except.ok.inj (Option.some.inj (hout.symm.trans hout'))
    exact .inl (Option.some.inj (hm.symm.trans hm'))
  have hmem : ∀ r ∈ w.honestIds, r ∈ upTo n := by
    intro r hr
    have hrid := (Setting.mem_honestIds.mp hr).1
    rwa [hids, List.mem_toFinset] at hrid
  rw [h.hashSenders_eq (hcreate p)] at hheard
  have hin : q ∈ l₃.map Prod.fst := by
    rcases hheard with hin | hnodup
    · exact hin
    -- as many different senders as there are others
    have hothers : (l₃.map Prod.fst).toFinset = (upTo n).toFinset.erase p := by
      refine Finset.eq_of_subset_of_card_le (fun s hs => ?_) ?_
      · obtain ⟨x, hx, rfl⟩ := List.mem_map.mp (List.mem_toFinset.mp hs)
        have hfed : (x.1, x.2) ∈ net.fed p := by
          rw [h.fed]
          simp [hx]
        obtain ⟨hs, -, hnep⟩ := Net.mem_fed hrun hfed
        exact Finset.mem_erase.mpr ⟨hnep.symm, hids ▸ hs⟩
      · rw [card_erase_upTo (hmem p hp), List.toFinset_card_of_nodup hnodup, List.length_map,
          h.agreed.length]
    rw [← List.mem_toFinset, hothers]
    exact Finset.mem_erase.mpr ⟨hne, List.mem_toFinset.mpr (hmem q hq)⟩
  have hsent : sentBy q (net.fed p) <+: Net.copies w.ids q p ((body q).outs (net.frames q)) :=
    (List.prefix_append _ _).trans
      (Net.sentBy_le_copies hrun (Setting.mem_honestIds.mp hq).2 p)
  have hhash := h.hash_eq doc h' (hmem p hp) (hmem q hq) hne hsent hin
  rw [eq_metadataOf hparse, eq_metadataOf hparse'] at hhash
  by_cases hsame : m = m'
  · exact .inl hsame
  · refine .inr ⟨fun hblob => hsame ?_, hhash⟩
    rw [← eq_metadataOf hparse, ← eq_metadataOf hparse'] at hblob
    exact Except.ok.inj ((hblob ▸ hparse).symm.trans hparse')

theorem stores_packBundle (doc : lib.Documented) {keys : KeyPackage F G × PublicKeyPackage F G}
    {blob out : Bytes} {log rest : List Bytes}
    (h : (liftM (packBundle lib keys.1 keys.2 blob) : Ceremony Bytes).eval log =
      some (.ok out, rest)) :
    ∃ metadata, metadataParse blob = .ok metadata ∧ storedMetadata lib out = some metadata := by
  rw [Proc.liftM_eq, Proc.eval_lift, Option.some.injEq, Prod.mk.injEq] at h
  obtain ⟨extras, birthday, hparse, hread⟩ := deserialize_packBundle doc h.1
  refine ⟨(extras, birthday), hparse, ?_⟩
  rw [storedMetadata, hread]
  rfl

/-- Whatever the corrupt parties send, and in whatever order it arrives, parties that end a Zcash
key generation or key import well hold the same extras and birthday, unless they have found a
collision, as soon as one of them has compared a hash of the other. -/
theorem metadata_agrees (doc : lib.Documented) {w : Setting} (hids : w.ids = (upTo n).toFinset)
    (minSigners c : UInt16) (birthday : UInt16 → UInt64) (rng : UInt16 → Rng) :
    (∀ (rng' : UInt16 → Rng) acts net,
      Net.run w (fun q => froztDkgRun lib q n minSigners (birthday q) (decide (q = c)) (rng q)
        (rng' q)) acts = some net → AgreesOnMetadata lib w n c net) ∧
    ∀ (seed : UInt16 → Bytes) (accountIndex : UInt16 → UInt32) acts net,
      Net.run w (fun q => froztKeyImportRun lib q n minSigners c (seed q) (accountIndex q)
        (birthday q) (rng q)) acts = some net → AgreesOnMetadata lib w n c net := by
  refine ⟨fun rng' acts net hrun => ?_, fun seed accountIndex acts net hrun => ?_⟩
  · have hcreate : ∀ q, (if decide (q = c) = true then
        some ((metadataCreate lib (birthday q) (rng' q)).map Prod.snd) else none).isSome ↔ q = c := by
      intro q
      split <;> simp_all
    exact agreesOnMetadata doc hids hcreate (fun q keys blob log out rest h => stores_packBundle doc h)
      (fun q _ => froztDkgRun_opens doc n minSigners q (birthday q) (decide (q = c)) (rng q) (rng' q))
      hrun
  · have hcreate : ∀ q, (if decide (q = c) = true then some (do
        let extras ← deriveExtrasFromSeed lib (seed q) (accountIndex q)
        metadataCreateWithExtras extras (birthday q)) else none).isSome ↔ q = c := by
      intro q
      split <;> simp_all
    refine agreesOnMetadata doc hids hcreate ?_ (fun q _ => froztKeyImportRun_opens doc n minSigners q
      c (seed q) (accountIndex q) (birthday q) (rng q)) hrun
    intro q keys blob log out rest h
    obtain ⟨⟨⟩, log', -, h⟩ := Proc.eval_bind_ok.mp h
    exact stores_packBundle doc h

/-! ## A coordinator that answers for everyone -/

section Samples

open Reference

def sampleSetting : Setting := ⟨(upTo 3).toFinset, {1}⟩

def coordinatedDkg (q : UInt16) : Ceremony Bytes :=
  froztDkgRun frozt q 3 2 0 (decide (q = 1)) q.toNat q.toNat

/-- Party 1 keeps the rounds. -/
def rounds : List Net.Action :=
  [.drain 1, .drain 2, .drain 3, .deliver 1 2, .deliver 3 2, .deliver 1 3, .deliver 2 3,
    .deliver 2 1, .deliver 3 1, .drain 1, .drain 1, .drain 2, .drain 2, .drain 3, .drain 3,
    .deliver 1 2, .deliver 3 2, .deliver 1 3, .deliver 2 3]

/-- Metadata with the given birthday, and its hash as often as asked. -/
def answers (p : UInt16) (birthday : UInt64) (times : Nat) : List Net.Action :=
  let blob := metadataOf (List.replicate 96 0, birthday)
  .inject 1 p blob :: .deliver 1 p ::
    (List.replicate times [.inject 1 p (frozt.blake2b blob), .deliver 1 p]).flatten

/-- Party 1 sends the others different metadata, each with the hash of it in its own name and
once more instead of the hash of the other party. -/
def split : List Net.Action := rounds ++ answers 2 5 2 ++ answers 3 7 2

/-- The others are sent the same metadata, and the hash of each other. -/
def hashesExchanged : List Net.Action :=
  rounds ++ answers 2 5 1 ++ answers 3 5 1 ++ [.drain 2, .drain 3, .deliver 2 3, .deliver 3 2]

/-- The birthday that a party has stored. -/
def birthdayAt (net : Net Bytes) (p : UInt16) : Option UInt64 :=
  (ended net p).bind fun out => (storedMetadata frozt out).map Prod.snd

theorem metadata_agrees_split :
    (∃ net, Net.run sampleSetting coordinatedDkg split = some net ∧
      AgreesOnMetadata frozt sampleSetting 3 1 net ∧ birthdayAt net 2 = some 5 ∧
      birthdayAt net 3 = some 7) ∧
    ∃ net, Net.run sampleSetting coordinatedDkg hashesExchanged = some net ∧
      AgreesOnMetadata frozt sampleSetting 3 1 net ∧ 3 ∈ hashSenders 3 1 net 2 ∧
      birthdayAt net 2 = some 5 ∧ birthdayAt net 3 = some 5 := by
  have hagrees := (metadata_agrees frozt_documented (show sampleSetting.ids = (upTo 3).toFinset from rfl)
    2 1 (fun _ => 0) UInt16.toNat).1 UInt16.toNat
  constructor
  · obtain ⟨net, hnet, hsplit⟩ := (Option.any_eq_true _ _).mp (show ((Net.run sampleSetting
      coordinatedDkg split).any fun net => birthdayAt net 2 = some 5 ∧ birthdayAt net 3 = some 7) =
        true by decide +kernel)
    exact ⟨net, hnet, hagrees split net hnet, of_decide_eq_true hsplit⟩
  · obtain ⟨net, hnet, hcompared⟩ := (Option.any_eq_true _ _).mp (show ((Net.run sampleSetting
      coordinatedDkg hashesExchanged).any fun net => 3 ∈ hashSenders 3 1 net 2 ∧
        birthdayAt net 2 = some 5 ∧ birthdayAt net 3 = some 5) = true by decide +kernel)
    exact ⟨net, hnet, hagrees hashesExchanged net hnet, of_decide_eq_true hcompared⟩

end Samples

end Frozt
