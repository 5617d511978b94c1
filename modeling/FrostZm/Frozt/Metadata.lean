import FrostZm.Ceremony.Exchange
import FrostZm.Ceremony.Rounds
import FrostZm.Frozt.Reference
import FrostZm.Frozt.Sessions

/-!
# The metadata under every schedule

After the rounds of the key a party reads the metadata, then a hash from everyone, and in a
key import the expected key. None of the messages says which of these it is.
-/

open Phases Ceremony FrostChannel

set_option linter.unusedSectionVars false

variable {F G Rng : Type} [Field F] [DecidableEq F] [Ord F] [Std.TransOrd F] [Std.LawfulEqOrd F]
  [AddCommGroup G] [Module F G]

namespace Frozt

variable (lib : FroztLib F G Rng)

/-- What `frozt_dkg_run` does after the rounds. -/
def dkgMetadata (maxSigners : UInt16) (birthday : UInt64) (isCoordinator : Bool) (rng : Rng)
    (keyPackage : KeyPackage F G) (pubKeyPackage : PublicKeyPackage F G) : Ceremony Bytes := do
  let metadataBlob ← agreeMetadata lib .dkgError maxSigners <|
    if isCoordinator then some ((metadataCreate lib birthday rng).map Prod.snd) else none
  packBundle lib keyPackage pubKeyPackage metadataBlob

/-- What `frozt_key_import_run` does after the rounds. -/
def importMetadata (maxSigners : UInt16) (isSeedHolder : Bool) (seed : Bytes)
    (accountIndex : UInt32) (birthday : UInt64) (keyPackage : KeyPackage F G)
    (pubKeyPackage : PublicKeyPackage F G) : Ceremony Bytes := do
  let metadataBlob ← agreeMetadata lib .keyImportError maxSigners <|
    if isSeedHolder then some (do
      let extras ← deriveExtrasFromSeed lib seed accountIndex
      metadataCreateWithExtras extras birthday)
    else none
  compareKey lib isSeedHolder seed accountIndex pubKeyPackage
  packBundle lib keyPackage pubKeyPackage metadataBlob

theorem froztDkgRun_eq (myId maxSigners minSigners : UInt16) (birthday : UInt64)
    (isCoordinator : Bool) (rng rng' : Rng) :
    froztDkgRun lib myId maxSigners minSigners birthday isCoordinator rng rng' =
      Ceremony.dkgRun lib.toFrostCore myId maxSigners minSigners rng >>= fun key =>
        dkgMetadata lib maxSigners birthday isCoordinator rng' key.1 key.2 := rfl

theorem froztKeyImportRun_eq (myId maxSigners minSigners seedHolderId : UInt16) (seed : Bytes)
    (accountIndex : UInt32) (birthday : UInt64) (rng : Rng) :
    froztKeyImportRun lib myId maxSigners minSigners seedHolderId seed accountIndex birthday rng =
      (liftM (importTerm lib (decide (myId = seedHolderId)) maxSigners seed accountIndex) >>=
        fun term => Ceremony.keyImportRun lib.toFrostCore myId maxSigners minSigners term rng >>=
          fun key => importMetadata lib maxSigners (decide (myId = seedHolderId)) seed accountIndex
            birthday key.1 key.2) := rfl

/-! ## The phases -/

/-- `c` sends the blob and its hash, the others read the blob and send its hash; everyone
reads the hashes of all others. `last` is what `c` sends in the end. -/
def metadataPhases (n c : UInt16) (blob hash : Bytes) (last : List Bytes) (p : UInt16) :
    List (Phase UInt16 Bytes Bytes) :=
  let others := (upTo n).toFinset.erase p
  if p = c then [⟨[u16ToLeBytes 0 ++ blob, u16ToLeBytes 0 ++ hash], others, fun _ => hash⟩]
  else ⟨[], {c}, fun _ => blob⟩ :: ⟨[u16ToLeBytes 0 ++ hash], others, fun _ => hash⟩ ::
    last.map fun m => ⟨[], {c}, fun _ => m⟩

/-- The senders of these phases. -/
def metadataPlan (n c : UInt16) (lastCount : Nat) (p : UInt16) : List (Finset UInt16) :=
  let others := (upTo n).toFinset.erase p
  if p = c then [others] else {c} :: others :: List.replicate lastCount {c}

/-- What `c` sends when it has all hashes. -/
def lastWrites (c : UInt16) (last : List Bytes) (p : UInt16) : List Bytes :=
  if p = c then last.map (u16ToLeBytes 0 ++ ·) else []

/-- No party has failed, and each has read in every phase the messages sent for it. -/
structure InOrder {α : Type} (n : UInt16) (phases : UInt16 → List (Phase UInt16 Bytes Bytes))
    (net : Net α) : Prop where
  noError : ∀ p ∈ upTo n, ∀ e, (net.party p).outcome ≠ some (.error e)
  consumed : ∀ p ∈ upTo n, Fits (phases p) (net.fed p)

/-- Every state of the run is in order. -/
def StaysInOrder {α : Type} (n : UInt16) (body : UInt16 → Ceremony α)
    (phases : UInt16 → List (Phase UInt16 Bytes Bytes)) (acts : List Net.Action) : Prop :=
  ∀ pre, pre <+: acts → ∀ net, Net.run ⟨(upTo n).toFinset, ∅⟩ body pre = some net →
    InOrder n phases net

variable {lib} {n c : UInt16} {blob hash : Bytes} {last : List Bytes}

theorem planOf_metadataPhases :
    Net.planOf (metadataPhases n c blob hash last) = metadataPlan n c last.length := by
  funext p
  unfold Net.planOf metadataPhases metadataPlan
  split
  · rfl
  · simp [Function.comp_def]

theorem copies_broadcast {ids : Finset UInt16} {s r : UInt16} (hr : r ∈ ids) (hne : r ≠ s)
    (msgs : List Bytes) : Net.copies ids s r (msgs.map (u16ToLeBytes 0 ++ ·)) = msgs := by
  induction msgs with
  | nil => rfl
  | cons m msgs ih =>
    unfold Net.copies at ih ⊢
    rw [List.map_cons, List.flatMap_cons, ih, Net.route_broadcast hr hne]
    rfl

theorem copies_metadataPhases (hc : c ∈ upTo n) {s r : UInt16} (hs : s ∈ upTo n) (hr : r ∈ upTo n)
    (hne : r ≠ s) :
    Net.copies (upTo n).toFinset s r
        (written (metadataPhases n c blob hash last s) (lastWrites c last s)) =
      expected (metadataPhases n c blob hash last r) s := by
  have hri := List.mem_toFinset.mpr hr
  have hexpected : ∀ (l : List Bytes) s, expected (l.map fun m => (⟨[], {c}, fun _ => m⟩ :
      Phase UInt16 Bytes Bytes)) s = if s = c then l else [] := by
    intro l s
    unfold expected
    rw [List.filterMap_map]
    by_cases h : s = c
    · simp [h]
    · simp [h]
  have hmem : s ∈ (upTo n).toFinset.erase r := by
    simp [hs, hne.symm]
  by_cases hsc : s = c
  · subst hsc
    have hwritten : written (metadataPhases n s blob hash last s) (lastWrites s last s) =
        (blob :: hash :: last).map (u16ToLeBytes 0 ++ ·) := by
      simp [written, metadataPhases, lastWrites]
    rw [hwritten, copies_broadcast hri hne]
    unfold metadataPhases
    rw [if_neg hne]
    have h := hexpected last s
    unfold expected at h ⊢
    rw [List.filterMap_cons, List.filterMap_cons, h]
    simp [hs, hne.symm]
  · have hwritten : written (metadataPhases n c blob hash last s) (lastWrites c last s) =
        [hash].map (u16ToLeBytes 0 ++ ·) := by
      simp [written, metadataPhases, lastWrites, hsc]
    rw [hwritten, copies_broadcast hri hne]
    unfold metadataPhases
    by_cases hrc : r = c
    · rw [if_pos hrc]
      simp [expected, hs, hne.symm]
    · rw [if_neg hrc]
      have h := hexpected last s
      unfold expected at h ⊢
      rw [List.filterMap_cons, List.filterMap_cons, h]
      simp [hs, hne.symm, hsc]

/-! ## The sessions read them -/

section Reads

variable {failure : LibError} {p : UInt16} {fin : List Bytes} {α : Type} {a : α}
  {phases : List (Phase UInt16 Bytes Bytes)}

theorem reads_hashes (failure : LibError) (hp : p ∈ upTo n) (hlen : hash.length = 32) {body : Ceremony α}
    {writes : List Bytes} (f : Ceremony α)
    (hbody : ∀ h, body.eval h =
        (recvEach (n - 1).toNat () (compareHash failure hash) >>= fun _ => f).eval h ∧
      body.outs h = writes ++
        (recvEach (n - 1).toNat () (compareHash failure hash) >>= fun _ => f).outs h)
    (hrest : Reads frame phases fin a f) :
    Reads frame (⟨writes, (upTo n).toFinset.erase p, fun _ => hash⟩ :: phases) fin a body := by
  refine Reads.of_collect (fun s m => compareHash failure hash s (unframe m)) () (fun _ => f) ?_ ?_
  · rw [card_erase_upTo hp]
    exact hbody
  · intro log hcol
    refine ⟨(), ?_, fun _ => hrest⟩
    rw [foldlM_frames]
    have hall : ∀ m ∈ log, m.2 = hash := fun m hm => (hcol.mem m hm).2
    clear hcol
    induction log with
    | nil => rfl
    | cons m log ih =>
      rw [List.forall_mem_cons] at hall
      have hstep : compareHash failure hash () m = .ok () := by
        unfold compareHash
        rw [if_neg]
        simp [hall.1, hlen]
      rw [List.foldlM_cons, hstep]
      exact ih hall.2

theorem reads_agree_some (hp : p ∈ upTo n) (hhash : metadataHash lib blob = .ok hash)
    (hlen : hash.length = 32) (f : Bytes → Ceremony α) (hrest : Reads frame phases fin a (f blob)) :
    Reads frame (⟨[u16ToLeBytes 0 ++ blob, u16ToLeBytes 0 ++ hash], (upTo n).toFinset.erase p,
        fun _ => hash⟩ :: phases) fin a
      (agreeMetadata lib failure n (some (.ok blob)) >>= f) := by
  refine reads_hashes failure hp hlen (f blob) (fun h => ?_) hrest
  unfold agreeMetadata shareMetadata broadcast Proc.output
  simp only [Proc.monadLift_eq, Proc.lift_ok, Proc.ret_bind, Proc.emit_bind, Proc.pure_eq, hhash,
    Proc.bind_bind, Proc.eval_emit, Proc.outs_emit]
  exact ⟨trivial, rfl⟩

theorem reads_agree_none (hp : p ∈ upTo n) (hhash : metadataHash lib blob = .ok hash)
    (hlen : hash.length = 32) (f : Bytes → Ceremony α) (hrest : Reads frame phases fin a (f blob)) :
    Reads frame (⟨[], {c}, fun _ => blob⟩ ::
        ⟨[u16ToLeBytes 0 ++ hash], (upTo n).toFinset.erase p, fun _ => hash⟩ :: phases) fin a
      (agreeMetadata lib failure n none >>= f) := by
  unfold agreeMetadata shareMetadata recv Proc.input
  simp only [Proc.recv_bind, Proc.ret_bind, Proc.pure_eq]
  refine Reads.of_input rfl rfl (reads_hashes failure hp hlen (f blob) (fun h => ?_) hrest)
  unfold broadcast Proc.output
  simp only [unframe_frame, Proc.monadLift_eq, Proc.lift_ok, Proc.ret_bind, Proc.emit_bind, hhash,
    Proc.bind_bind, Proc.eval_emit, Proc.outs_emit]
  exact ⟨trivial, rfl⟩

theorem reads_lift {x : Result α} (hx : x = .ok a) : Reads frame [] [] a (liftM x : Ceremony α) := by
  subst hx
  exact ⟨rfl, rfl⟩

end Reads

/-! ## The schedules -/

variable {α : Type} {body : UInt16 → Ceremony α} {result : UInt16 → α} {acts : List Net.Action}
  {net : Net α}

theorem staysInOrder_iff (hc : c ∈ upTo n)
    (hreads : ∀ p ∈ upTo n, Reads frame (metadataPhases n c blob hash last p)
      (lastWrites c last p) (result p) (body p))
    (hrun : Net.run ⟨(upTo n).toFinset, ∅⟩ body acts = some net) :
    StaysInOrder n body (metadataPhases n c blob hash last) acts ↔
      Net.KeepsPhase ⟨(upTo n).toFinset, ∅⟩ body (metadataPlan n c last.length) acts := by
  have hplanned : Net.Planned ⟨(upTo n).toFinset, ∅⟩ body (metadataPhases n c blob hash last)
      (lastWrites c last) result := by
    refine ⟨rfl, fun p hp => hreads p (List.mem_toFinset.mp hp), fun s hs r hr hne => ?_⟩
    rw [copies_metadataPhases hc (List.mem_toFinset.mp hs) (List.mem_toFinset.mp hr) hne]
  have hplan : Net.planOf (metadataPhases n c blob hash last) = metadataPlan n c last.length :=
    planOf_metadataPhases
  rw [← hplan]
  constructor
  · intro h
    refine Net.keepsPhase_of_fits hrun fun pre hpre u hu p hp => ?_
    exact (h pre hpre u hu).consumed p (List.mem_toFinset.mp hp)
  · intro hkeep pre hpre u hu
    refine ⟨fun p hp e => ?_, fun p hp => ?_⟩
    · rcases hplanned.outcome_of_keepsPhase hu (hkeep.mono hpre) (List.mem_toFinset.mpr hp) with h | h
      · rw [h]
        nofun
      · rw [h]
        nofun
    · exact hplanned.fits_run hu (hkeep.mono hpre) p (List.mem_toFinset.mpr hp)

/-! ## The two sessions -/

variable {key : UInt16 → KeyPackage F G} {pub : UInt16 → PublicKeyPackage F G}

theorem length_metadata {extras : Bytes} (hextras : extras.length = 96) (birthday : UInt64) :
    (metadataVersion :: u64ToLeBytes birthday ++ extras).length = metadataLength := by
  rw [List.length_append, List.length_cons, length_u64ToLeBytes, hextras, metadataLength]

theorem exists_packBundle {keyPackage : KeyPackage F G} {pubKeyPackage : PublicKeyPackage F G}
    {kp pkp extras : Bytes} {birthday : UInt64} (hkp : lib.serializeKeyPackage keyPackage = some kp)
    (hpkp : lib.serializePublicKeyPackage pubKeyPackage = some pkp)
    (hparse : metadataParse blob = .ok (extras, birthday)) :
    ∃ out, packBundle lib keyPackage pubKeyPackage blob = .ok out := by
  let bundle : KeyShareBundle F G := { keyPackage, pubKeyPackage, saplingExtras := extras, birthday }
  have hserialize : ∃ out, bundle.serialize lib = .ok out :=
    ⟨_, bind_eq_ok.mpr ⟨kp, okOr_eq_ok.mpr hkp, bind_eq_ok.mpr ⟨pkp, okOr_eq_ok.mpr hpkp, rfl⟩⟩⟩
  obtain ⟨out, hout⟩ := hserialize
  exact ⟨out, bind_eq_ok.mpr ⟨_, hparse, hout⟩⟩

theorem reads_dkgMetadata (doc : lib.Documented) (birthday : UInt16 → UInt64) (rng : UInt16 → Rng)
    (hkeys : ∀ p ∈ upTo n, (∃ b, lib.serializeKeyPackage (key p) = some b) ∧
      ∃ b, lib.serializePublicKeyPackage (pub p) = some b) :
    ∃ blob hash : Bytes, metadataCreate lib (birthday c) (rng c) = .ok (lib.randomExtras (rng c), blob) ∧
      metadataHash lib blob = .ok hash ∧
      ∃ result : UInt16 → Bytes, ∀ p ∈ upTo n, Reads frame (metadataPhases n c blob hash [] p)
        (lastWrites c [] p) (result p)
        (dkgMetadata lib n (birthday p) (decide (p = c)) (rng p) (key p) (pub p)) := by
  have hextras := doc.length_randomExtras (rng c)
  have hcreate : metadataCreateWithExtras (lib.randomExtras (rng c)) (birthday c) =
      .ok (metadataVersion :: u64ToLeBytes (birthday c) ++ lib.randomExtras (rng c)) :=
    if_neg (not_not.mpr hextras)
  generalize hblob : metadataVersion :: u64ToLeBytes (birthday c) ++ lib.randomExtras (rng c) = blob
    at hcreate
  have hhash : metadataHash lib blob = .ok (lib.blake2b blob) :=
    if_neg (not_not.mpr (hblob ▸ length_metadata hextras (birthday c)))
  have hlen := doc.length_blake2b blob
  have hpack : ∀ p ∈ upTo n, ∃ out, packBundle lib (key p) (pub p) blob = .ok out := by
    intro p hp
    obtain ⟨⟨kp, hkp⟩, pkp, hpkp⟩ := hkeys p hp
    exact exists_packBundle hkp hpkp (metadataParse_create _ _ hcreate)
  choose! result hresult using hpack
  refine ⟨blob, lib.blake2b blob, by rw [← hblob]; rfl, hhash, result, fun p hp => ?_⟩
  have hlast := reads_lift (hresult p hp)
  unfold metadataPhases lastWrites dkgMetadata
  by_cases hpc : p = c
  · subst hpc
    simp only [if_true, decide_true, List.map_nil]
    have hsome : (metadataCreate lib (birthday p) (rng p)).map Prod.snd = .ok blob := by
      rw [← hblob]
      rfl
    rw [hsome]
    exact reads_agree_some hp hhash hlen _ hlast
  · simp only [hpc, decide_false, Bool.false_eq_true, if_false, List.map_nil]
    exact reads_agree_none hp hhash hlen _ hlast

theorem exists_extras (doc : lib.Documented) {seed sk : Bytes} {accountIndex : UInt32}
    (hsk : deriveSpendingKey lib seed accountIndex = .ok sk) :
    ∃ extras, deriveExtrasFromSeed lib seed accountIndex = .ok extras ∧ extras.length = 96 := by
  refine ⟨lib.accountExtras seed accountIndex, ?_, doc.length_accountExtras seed accountIndex⟩
  unfold deriveSpendingKey at hsk
  unfold deriveExtrasFromSeed
  by_cases hlen : seed.length ≠ 64
  · rw [if_pos hlen] at hsk
    nomatch hsk
  · rw [if_neg hlen] at hsk ⊢
    obtain ⟨account, haccount, -⟩ := bind_eq_ok.mp hsk
    unfold hardenedAccountChild at haccount ⊢
    split at haccount
    · nomatch haccount
    · next h =>
      rw [if_neg h]
      rfl

theorem reads_importMetadata (doc : lib.Documented) {seed : UInt16 → Bytes}
    {accountIndex : UInt16 → UInt32} (birthday : UInt16 → UInt64) {sk vk : Bytes}
    (hsk : deriveSpendingKey lib (seed c) (accountIndex c) = .ok sk)
    (hvk : spendingKeyToVk lib sk = .ok vk)
    (hpub : ∀ p ∈ upTo n, lib.serializeVerifyingKey (pub p).verifyingKey = some vk)
    (hkeys : ∀ p ∈ upTo n, (∃ b, lib.serializeKeyPackage (key p) = some b) ∧
      ∃ b, lib.serializePublicKeyPackage (pub p) = some b) :
    ∃ extras blob hash : Bytes, deriveExtrasFromSeed lib (seed c) (accountIndex c) = .ok extras ∧
      metadataCreateWithExtras extras (birthday c) = .ok blob ∧ metadataHash lib blob = .ok hash ∧
      ∃ result : UInt16 → Bytes, ∀ p ∈ upTo n, Reads frame (metadataPhases n c blob hash [vk] p)
        (lastWrites c [vk] p) (result p)
        (importMetadata lib n (decide (p = c)) (seed p) (accountIndex p) (birthday p) (key p)
          (pub p)) := by
  obtain ⟨extras, hextras, hextraslen⟩ := exists_extras doc hsk
  have hcreate : metadataCreateWithExtras extras (birthday c) =
      .ok (metadataVersion :: u64ToLeBytes (birthday c) ++ extras) :=
    if_neg (not_not.mpr hextraslen)
  have hbloblen := length_metadata hextraslen (birthday c)
  generalize metadataVersion :: u64ToLeBytes (birthday c) ++ extras = blob at hcreate hbloblen
  have hhash : metadataHash lib blob = .ok (lib.blake2b blob) := if_neg (not_not.mpr hbloblen)
  have hlen := doc.length_blake2b blob
  have hpack : ∀ p ∈ upTo n, ∃ out, packBundle lib (key p) (pub p) blob = .ok out := by
    intro p hp
    obtain ⟨⟨kp, hkp⟩, pkp, hpkp⟩ := hkeys p hp
    exact exists_packBundle hkp hpkp (metadataParse_create _ _ hcreate)
  choose! result hresult using hpack
  refine ⟨extras, blob, lib.blake2b blob, hextras, hcreate, hhash, result, fun p hp => ?_⟩
  have hlast := reads_lift (hresult p hp)
  unfold metadataPhases lastWrites importMetadata
  by_cases hpc : p = c
  · subst hpc
    have hsome : (do
        let extras ← deriveExtrasFromSeed lib (seed p) (accountIndex p)
        metadataCreateWithExtras extras (birthday p)) = (.ok blob : Result Bytes) :=
      bind_eq_ok.mpr ⟨extras, hextras, hcreate⟩
    simp only [if_true, decide_true, hsome]
    refine reads_agree_some hp hhash hlen _ ?_
    unfold compareKey broadcast Proc.output
    simp only [if_true, hsk, hvk, Proc.monadLift_eq, Proc.lift_ok, Proc.ret_bind,
      Proc.emit_bind]
    exact ⟨hlast.1, congrArg _ hlast.2⟩
  · simp only [hpc, decide_false, Bool.false_eq_true, if_false, List.map_cons, List.map_nil]
    refine reads_agree_none hp hhash hlen _ ?_
    unfold compareKey recv Proc.input
    simp only [Bool.false_eq_true, if_false, Proc.recv_bind, Proc.ret_bind]
    refine Reads.of_input rfl rfl ?_
    simp only [unframe_frame, hpub p hp, okOr_some, Proc.monadLift_eq, Proc.lift_ok,
      Proc.ret_bind, Proc.pure_eq, ne_eq, not_true_eq_false, if_false]
    exact hlast

/-- Once all parties have the keys of one ceremony, the phases of the metadata stay in order
exactly as long as no delivery is out of phase: no hash reaches a party that waits for the
blob, and no expected key one that waits for a hash. -/
theorem metadata_staysInOrder_iff (doc : lib.Documented) (enc : lib.EncodesKeys)
    {minSigners : UInt16} (deal : Deal lib.toFrostCore n minSigners) (hids : deal.ids = upTo n)
    (hsecret : deal.groupSecret ≠ 0) (hshares : ∀ p ∈ deal.ids, (deal.key p).signingShare ≠ 0)
    (hc : c ∈ upTo n) :
    (∀ (birthday : UInt16 → UInt64) (rng : UInt16 → Rng), ∃ blob hash : Bytes,
      metadataCreate lib (birthday c) (rng c) = .ok (lib.randomExtras (rng c), blob) ∧
      metadataHash lib blob = .ok hash ∧
      let body := fun p =>
        dkgMetadata lib n (birthday p) (decide (p = c)) (rng p) (deal.key p) (deal.publicKey p)
      ∀ acts net, Net.run ⟨(upTo n).toFinset, ∅⟩ body acts = some net →
        (StaysInOrder n body (metadataPhases n c blob hash []) acts ↔
          Net.KeepsPhase ⟨(upTo n).toFinset, ∅⟩ body (metadataPlan n c 0) acts)) ∧
    ∀ (seed : UInt16 → Bytes) (accountIndex : UInt16 → UInt32) (birthday : UInt16 → UInt64)
      (sk : Bytes), deriveSpendingKey lib (seed c) (accountIndex c) = .ok sk →
      lib.deserializeScalar sk = some deal.groupSecret →
      ∃ extras blob hash vk : Bytes,
        deriveExtrasFromSeed lib (seed c) (accountIndex c) = .ok extras ∧
        metadataCreateWithExtras extras (birthday c) = .ok blob ∧
        metadataHash lib blob = .ok hash ∧ spendingKeyToVk lib sk = .ok vk ∧
        let body := fun p => importMetadata lib n (decide (p = c)) (seed p) (accountIndex p)
          (birthday p) (deal.key p) (deal.publicKey p)
        ∀ acts net, Net.run ⟨(upTo n).toFinset, ∅⟩ body acts = some net →
          (StaysInOrder n body (metadataPhases n c blob hash [vk]) acts ↔
            Net.KeepsPhase ⟨(upTo n).toFinset, ∅⟩ body (metadataPlan n c 1) acts) := by
  have hkeys : ∀ p ∈ upTo n, (∃ b, lib.serializeKeyPackage (deal.key p) = some b) ∧
      ∃ b, lib.serializePublicKeyPackage (deal.publicKey p) = some b := by
    rw [← hids]
    exact fun p hp => Deal.exists_keyEncodings doc.toKeys enc hp hsecret hshares
  refine ⟨?_, ?_⟩
  · intro birthday rng
    obtain ⟨blob, hash, hcreate, hhash, result, hreads⟩ :=
      reads_dkgMetadata doc birthday rng hkeys
    exact ⟨blob, hash, hcreate, hhash, fun acts net hr => staysInOrder_iff hc hreads hr⟩
  · intro seed accountIndex birthday sk hsk hscalar
    obtain ⟨vk, hvk⟩ := (doc.toCore.verifyingKey_ok_iff (deal.groupSecret • lib.generator)).mpr
      (smul_ne_zero hsecret doc.toCore.generator_ne_zero)
    have hkey : spendingKeyToVk lib sk = .ok vk :=
      bind_eq_ok.mpr ⟨_, okOr_eq_ok.mpr hscalar, okOr_eq_ok.mpr hvk⟩
    have hpub : ∀ p ∈ upTo n,
        lib.serializeVerifyingKey (deal.publicKey p).verifyingKey = some vk := by
      rw [← hids]
      intro p hp
      rw [Deal.publicKey_verifyingKey doc.toCore hp, hvk]
    obtain ⟨extras, blob, hash, hextras, hcreate, hhash, result, hreads⟩ :=
      reads_importMetadata doc birthday hsk hkey hpub hkeys
    exact ⟨extras, blob, hash, vk, hextras, hcreate, hhash, hkey,
      fun acts net hr => staysInOrder_iff hc hreads hr⟩

section Samples

open Reference

/-- Party 1 makes the metadata. -/
def sampleDkg (p : UInt16) : Ceremony Bytes :=
  dkgMetadata frozt 3 0 (decide (p = 1)) p.toNat (sampleDeal.key p) (sampleDeal.publicKey p)

/-- Party 1 imports the spending key of account 9 of a seed of zeros. -/
def sampleImport (p : UInt16) : Ceremony Bytes :=
  importMetadata frozt 3 (decide (p = 1)) (List.replicate 64 0) 9 0 (sampleDeal.key p)
    (sampleDeal.publicKey p)

/-- Party 2 reads the blob of party 1, and the hash that it sends overtakes the blob. -/
def overtakenBlob : List Net.Action := [.drain 1, .deliver 1 2, .drain 2, .deliver 2 3]

/-- Party 1 has all hashes, and its key overtakes the hash of party 3 for party 2. -/
def overtakenHash : List Net.Action :=
  [.drain 1, .drain 1, .deliver 1 2, .deliver 1 3, .drain 2, .drain 3, .deliver 2 1, .deliver 3 1,
    .drain 1, .deliver 1 2, .deliver 1 2]

theorem error_of_run {body : UInt16 → Ceremony Bytes} {acts : List Net.Action} {p : UInt16}
    (herr : ((Net.run ⟨(upTo n).toFinset, ∅⟩ body acts).bind fun net =>
      (net.party p).outcome.bind fun r => r.toOption.elim (some ()) fun _ => none) = some ())
    (hp : p ∈ upTo n) :
    ∃ net, Net.run ⟨(upTo n).toFinset, ∅⟩ body acts = some net ∧
      ∀ phases, ¬ StaysInOrder n body phases acts := by
  obtain ⟨net, hnet, hout⟩ := Option.bind_eq_some_iff.mp herr
  obtain ⟨r, hr, hnone⟩ := Option.bind_eq_some_iff.mp hout
  refine ⟨net, hnet, fun phases h => ?_⟩
  cases r with
  | ok a => simp [Except.toOption] at hnone
  | error e => exact (h _ (List.prefix_refl _) net hnet).noError p hp e hr

theorem metadata_overtaken :
    (∃ net, Net.run ⟨(upTo 3).toFinset, ∅⟩ sampleDkg overtakenBlob = some net ∧
      ∀ phases, ¬ StaysInOrder 3 sampleDkg phases overtakenBlob) ∧
    ∃ net, Net.run ⟨(upTo 3).toFinset, ∅⟩ sampleImport overtakenHash = some net ∧
      ∀ phases, ¬ StaysInOrder 3 sampleImport phases overtakenHash :=
  ⟨error_of_run (p := 3) (by decide +kernel) (by decide),
    error_of_run (p := 2) (by decide +kernel) (by decide)⟩

theorem sampleDeal_shares : ∀ p ∈ sampleDeal.ids, (sampleDeal.key p).signingShare ≠ 0 := by
  have hall : sampleDeal.ids.all fun p => (sampleDeal.key p).signingShare ≠ 0 := by decide +kernel
  exact fun p hp => of_decide_eq_true (List.all_eq_true.mp hall p hp)

theorem metadata_staysInOrder_sample :
    (∃ blob hash net, Net.run ⟨(upTo 3).toFinset, ∅⟩ sampleDkg overtakenBlob = some net ∧
      (StaysInOrder 3 sampleDkg (metadataPhases 3 1 blob hash []) overtakenBlob ↔
        Net.KeepsPhase ⟨(upTo 3).toFinset, ∅⟩ sampleDkg (metadataPlan 3 1 0) overtakenBlob)) ∧
    ∃ blob hash vk net, Net.run ⟨(upTo 3).toFinset, ∅⟩ sampleImport overtakenHash = some net ∧
      (StaysInOrder 3 sampleImport (metadataPhases 3 1 blob hash [vk]) overtakenHash ↔
        Net.KeepsPhase ⟨(upTo 3).toFinset, ∅⟩ sampleImport (metadataPlan 3 1 1) overtakenHash) := by
  have hsk : deriveSpendingKey frozt (List.replicate 64 0) 9 = .ok (encodeScalar 9) := by decide
  have hscalar : frozt.deserializeScalar (encodeScalar 9) = some sampleDeal.groupSecret := by
    have h9 : sampleDeal.groupSecret = 9 := by decide +kernel
    rw [h9]
    exact deserializeScalar_encode 9
  have h := metadata_staysInOrder_iff frozt_documented keys_encodesKeys sampleDeal (by decide)
    (show sampleDeal.groupSecret ≠ 0 by decide +kernel) sampleDeal_shares
    (show (1 : UInt16) ∈ upTo 3 by decide)
  refine ⟨?_, ?_⟩
  · obtain ⟨blob, hash, -, -, hiff⟩ := h.1 (fun _ => 0) UInt16.toNat
    obtain ⟨net, hnet⟩ := Option.isSome_iff_exists.mp
      (show (Net.run ⟨(upTo 3).toFinset, ∅⟩ sampleDkg overtakenBlob).isSome by decide +kernel)
    exact ⟨blob, hash, net, hnet, hiff _ net hnet⟩
  · obtain ⟨-, blob, hash, vk, -, -, -, -, hiff⟩ :=
      h.2 (fun _ => List.replicate 64 0) (fun _ => 9) (fun _ => 0) _ hsk hscalar
    obtain ⟨net, hnet⟩ := Option.isSome_iff_exists.mp
      (show (Net.run ⟨(upTo 3).toFinset, ∅⟩ sampleImport overtakenHash).isSome by decide +kernel)
    exact ⟨blob, hash, vk, net, hnet, hiff _ net hnet⟩

end Samples

end Frozt
