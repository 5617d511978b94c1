import FrostZm.Ceremony.Resharing
import FrostZm.Ceremony.Schedules
import FrostZm.Frost.Keys
import FrostZm.Session.Setup

/-!
# Resharing sessions

A session is made from the setup message and the party's old key package. It runs the two
rounds under the numbers from one to the number of signers.
-/

open Phases FrostChannel Polynomial

set_option linter.unusedSectionVars false

variable {F G Rng : Type} [Field F] [DecidableEq F] [Ord F] [Std.TransOrd F] [Std.LawfulEqOrd F]
  [AddCommGroup G] [Module F G]

namespace Ceremony

/-- `frozt_reshare_session_from_setup`, and its copy for Monero. -/
def reshareSessionFromSetup (keys : FrostKeys F G Rng)
    (setupData myPartyName oldKeyPackage : Option Bytes) (rng : Rng) :
    Result (Ceremony (KeyPackage F G × PublicKeyPackage F G)) := do
  let sd ← okOr .nullPtr setupData
  let name ← okOr .nullPtr myPartyName
  let okp ← okOr .nullPtr oldKeyPackage
  let reshareSetup ← ReshareSetup.decode sd
  let setup := reshareSetup.base
  let myId ← okOr .invalidIdentifier (setup.frostIdByName name)
  let oldKp ← okOr .serializationError (keys.deserializeKeyPackage okp)
  let oldIds ← reshareSetup.oldIdentifiers.mapM fun id =>
    okOr .invalidIdentifier (Identifier.tryFrom id)
  let additiveShare ← computeAdditiveShare oldKp oldIds setup.maxSigners
  return reshareRun keys.toFrostCore myId setup.maxSigners setup.minSigners additiveShare
    reshareSetup.expectedVk rng

variable {core : FrostCore F G Rng} {n minSigners : UInt16}

/-! ## Numbers that the session can send to -/

namespace Deal

variable {deal : Deal core n minSigners} {p : UInt16} {bytes : UInt16 → Bytes} {idMap : IdMap}

theorem lookup_of_runRounds (doc : core.Documented) (hp : p ∈ deal.ids)
    (hbytes : ∀ s ∈ deal.ids, core.serializeRound1 (deal.package s) = some (bytes s))
    {t r : List Bytes} {result : KeyPackage F G × PublicKeyPackage F G}
    (h : (runRounds core n idMap (deal.secret p) (bytes p)).eval
      (((deal.others p).map fun s => frame (s, bytes s)) ++ t) = some (.ok result, r)) :
    ∀ s ∈ deal.others p, ∃ m, lookupU16 core idMap (deal.ident s) = .ok m := by
  unfold runRounds at h
  obtain ⟨_, _, hemit, h⟩ := Proc.eval_bind_ok.mp h
  obtain ⟨-, rfl⟩ := Prod.mk.inj (Option.some.inj hemit)
  obtain ⟨r1Map, t', hr1, h⟩ := Proc.eval_bind_ok.mp h
  obtain ⟨log, hlog, hlen, hfold⟩ := Proc.eval_collect_ok_iff.mp hr1
  obtain ⟨rfl, rfl⟩ := List.append_inj hlog (by rw [List.length_map, length_others hp, hlen])
  have hdecode : ∀ x ∈ (deal.others p).map (fun s => (s, bytes s)),
      Identifier.tryFrom x.1 = some (deal.ident x.1) ∧
        core.deserializeRound1 x.2 = some (deal.package x.1) := by
    intro x hx
    obtain ⟨s, hs, rfl⟩ := List.mem_map.mp hx
    have hs := (mem_others.mp hs).2
    exact ⟨deal.tryFrom s hs, doc.round1_roundtrip _ _ (hbytes s hs)⟩
  have hmap : ((deal.others p).map fun s => (s, bytes s)).foldlM (store core.deserializeRound1)
      (BTreeMap.tabulate deal.ident deal.package []) =
        .ok (BTreeMap.tabulate deal.ident deal.package
          ([] ++ ((deal.others p).map fun s => (s, bytes s)).map Prod.fst)) :=
    foldlM_store [] hdecode
  have hframes : ((deal.others p).map fun s => frame (s, bytes s)) =
      ((deal.others p).map fun s => (s, bytes s)).map frame := by
    rw [List.map_map]
    rfl
  rw [hframes, foldlM_frames] at hfold
  have hr1Map : r1Map = deal.round1Map p := by
    have heq := Except.ok.inj (hfold.symm.trans hmap)
    rw [heq, List.map_map, List.nil_append]
    exact congrArg _ (List.map_id _)
  rw [hr1Map] at h
  unfold finishRounds at h
  obtain ⟨⟨secret2, r2Map⟩, hpart2, h⟩ := Proc.eval_liftM_bind_ok.mp h
  rw [blameErr_eq_ok, part2_ok doc hp] at hpart2
  obtain ⟨rfl, rfl⟩ := Prod.mk.inj (Except.ok.inj hpart2)
  obtain ⟨_, _, hsend, -⟩ := Proc.eval_bind_ok.mp h
  intro s hs
  have hmem : (deal.ident s, deal.round2Package p s) ∈ (deal.sent2Map p).toList := by
    rw [Std.ExtTreeMap.mem_toList_iff_getElem?_eq_some, sent2Map,
      BTreeMap.getElem?_tabulate (others_injective doc)]
    exact ⟨s, hs, rfl, rfl⟩
  exact lookup_of_sendRound2 hsend _ hmem

end Deal

/-! ## The same as round by round -/

/-- The two rounds of `p` among `ids`: its packages, in the order in which the second ones
leave, and those of the others. -/
def exchange (ids : List UInt16) (bytes : UInt16 → Bytes) (bytes2 : UInt16 → UInt16 → Bytes)
    (order : List UInt16) (p : UInt16) : List (Phase UInt16 Bytes Bytes) :=
  let others := (ids.erase p).toFinset
  [⟨[u16ToLeBytes 0 ++ bytes p], others, bytes⟩,
    ⟨order.map fun s => u16ToLeBytes s ++ bytes2 p s, others, fun s => bytes2 s p⟩]

/-- What a party has after a resharing. -/
structure Reshared (F G : Type) [Field F] [Ord F] where
  keyPackage : KeyPackage F G
  pubKeyPackage : PublicKeyPackage F G
  viewKey : Option Bytes

/-- `frozt_reshare_session_result`, and its copy for Monero: the two packages and no more. -/
def sessionResult (keys : KeyPackage F G × PublicKeyPackage F G) : Reshared F G :=
  ⟨keys.1, keys.2, none⟩

/-- In both rounds every other party is heard. -/
def othersTwice (ids : List UInt16) (p : UInt16) : List (Finset UInt16) :=
  [(ids.erase p).toFinset, (ids.erase p).toFinset]

/-- Every party has a session; it sends the packages `bytes` and `bytes2`, reads those of the
others and ends with its `result`. In the run none of them ends with anything else. -/
structure SessionsAgree {α : Type} (ids : List UInt16) (session : UInt16 → Result (Ceremony α))
    (body : UInt16 → Ceremony α) (bytes : UInt16 → Bytes) (bytes2 : UInt16 → UInt16 → Bytes)
    {β : Type} (hand : α → β) (result : UInt16 → β) (acts : List Net.Action) : Prop where
  created : ∀ p ∈ ids, ∃ b, session p = .ok b
  reads : ∀ p ∈ ids, ∃ (order : List UInt16) (a : α), order.Perm (ids.erase p) ∧
    hand a = result p ∧ Reads frame (exchange ids bytes bytes2 order p) [] a (body p)
  outcome : ∀ pre, pre <+: acts → ∀ net, Net.run ⟨ids.toFinset, ∅⟩ body pre = some net →
    ∀ p ∈ ids, ∀ x, (net.party p).outcome = some x → x.map hand = .ok (result p)

theorem Deal.rounds_eq_exchange (doc : core.Documented) {deal : Deal core n minSigners}
    (bytes : UInt16 → Bytes) {idMap : IdMap}
    (hlookup : ∀ s ∈ deal.ids, lookupU16 core idMap (deal.ident s) = .ok s) (p : UInt16) :
    ∃ order : List UInt16, order.Perm (deal.ids.erase p) ∧
      deal.rounds bytes idMap p = exchange deal.ids bytes deal.round2Bytes order p := by
  have hinj : BTreeMap.Injective deal.ident (deal.others p) := others_injective doc
  obtain ⟨order, hperm, htoList⟩ : ∃ order : List UInt16, (deal.others p).Perm order ∧
      (deal.sent2Map p).toList = order.map fun s => (deal.ident s, deal.round2Package p s) :=
    BTreeMap.exists_toList_tabulate hinj nodup_others
  refine ⟨order, hperm.symm, ?_⟩
  have hwrites : deal.round2Writes idMap p =
      order.map fun s => u16ToLeBytes s ++ deal.round2Bytes p s := by
    rw [round2Writes, htoList, List.map_map]
    refine List.map_congr_left fun s hs => ?_
    have hl := hlookup s (mem_others.mp (hperm.mem_iff.mpr hs)).2
    rw [lookupU16, okOr_eq_ok] at hl
    rw [Function.comp_apply, numberIn, hl]
    rfl
  rw [rounds, round2Phase, hwrites]
  rfl

section Exchange

variable {ids : List UInt16} {bytes : UInt16 → Bytes} {bytes2 : UInt16 → UInt16 → Bytes}
  {order : List UInt16} {p : UInt16}

theorem fits_exchange (hn : (ids.erase p).Nodup) : Fits (exchange ids bytes bytes2 order p)
    (((ids.erase p).map fun s => (s, bytes s)) ++ (ids.erase p).map fun s => (s, bytes2 s p)) := by
  have hcard : (ids.erase p).toFinset.card = ((ids.erase p).map fun s => (s, bytes s)).length := by
    rw [List.toFinset_card_of_nodup hn, List.length_map]
  have hcol : ∀ (ph : Phase UInt16 Bytes Bytes), ph.senders = (ids.erase p).toFinset →
      Collects ph ((ids.erase p).map fun s => (s, ph.message s)) := by
    intro ph hph
    refine ⟨?_, ?_⟩
    · rw [List.map_map]
      exact (List.map_id _).symm ▸ hn
    · intro x hx
      obtain ⟨s, hs, rfl⟩ := List.mem_map.mp hx
      exact ⟨hph ▸ List.mem_toFinset.mpr hs, rfl⟩
  refine ⟨?_, ?_, ?_⟩
  · rw [hcard, List.take_left]
    exact hcol _ rfl
  · rw [hcard, List.drop_left, List.take_of_length_le]
    · exact hcol _ rfl
    · rw [List.length_map, List.length_map]
  · rw [hcard, List.drop_left]
    refine List.drop_eq_nil_of_le ?_
    rw [List.length_map, List.length_map]

theorem length_exchange (hn : (ids.erase p).Nodup) :
    (((ids.erase p).map fun s => (s, bytes s)) ++
      (ids.erase p).map fun s => (s, bytes2 s p)).length = total (exchange ids bytes bytes2 order p) := by
  have hcard := List.toFinset_card_of_nodup hn
  rw [List.length_append, List.length_map, List.length_map]
  unfold total exchange
  simp only [List.map_cons, List.map_nil, List.sum_cons, List.sum_nil, hcard, add_zero]

end Exchange

/-- What the parties of a resharing pass to the library: the setup message that names them,
and the key packages of the old ones. -/
structure ReshareClients (keys : FrostKeys F G Rng) {f : F[X]} (r : Resharing F G f n)
    (minSigners : UInt16) where
  name : UInt16 → Bytes
  setup : ReshareSetup
  setupData : Bytes
  oldKeyPackage : UInt16 → Option Bytes
  decode : ReshareSetup.decode setupData = .ok setup
  maxSigners_eq : setup.base.maxSigners = n
  minSigners_eq : setup.base.minSigners = minSigners
  named : ∀ p ∈ r.ids, setup.base.frostIdByName (name p) = some p
  oldIds : setup.oldIdentifiers.mapM Identifier.tryFrom = some r.oldIds
  expected : keys.serializeVerifyingKey (f.eval 0 • keys.generator) = some setup.expectedVk
  held : ∀ p ∈ r.ids, ∀ kp, r.role p = some kp →
    ∃ b, oldKeyPackage p = some b ∧ keys.deserializeKeyPackage b = some kp
  joining : ∀ p ∈ r.ids, r.role p = none → oldKeyPackage p = none ∨ oldKeyPackage p = some []

namespace ReshareClients

variable {keys : FrostKeys F G Rng} {f : F[X]} {r : Resharing F G f n}
  (c : ReshareClients keys r minSigners)

/-- The session of `p`. -/
def session (rng : UInt16 → Rng) (p : UInt16) :
    Result (Ceremony (KeyPackage F G × PublicKeyPackage F G)) :=
  reshareSessionFromSetup keys (some c.setupData) (some (c.name p)) (c.oldKeyPackage p) (rng p)

/-- A party without a session has failed. -/
def body (rng : UInt16 → Rng) (p : UInt16) : Ceremony (KeyPackage F G × PublicKeyPackage F G) :=
  match c.session rng p with
  | .ok body => body
  | .error e => .fail e

/-- The old identifiers as the first round gets them. -/
def oldIdsData : Bytes := c.setup.oldIdentifiers.flatMap u16ToLeBytes

variable {c}

theorem session_of_role {rng : UInt16 → Rng} {p : UInt16} (hp : p ∈ r.ids) {kp : KeyPackage F G}
    (hkp : r.role p = some kp) {share : F} (hshare : r.additiveShare p = .ok share) :
    c.session rng p =
      .ok (reshareRun keys.toFrostCore p n minSigners share c.setup.expectedVk (rng p)) := by
  obtain ⟨b, hb, hdec⟩ := c.held p hp kp hkp
  have hids : c.setup.oldIdentifiers.mapM (fun id =>
      okOr .invalidIdentifier (Identifier.tryFrom id : Option (Identifier F))) = .ok r.oldIds :=
    mapM_okOr c.oldIds
  unfold Resharing.additiveShare at hshare
  rw [hkp] at hshare
  unfold session reshareSessionFromSetup
  rw [hb]
  refine bind_eq_ok.mpr ⟨_, rfl, bind_eq_ok.mpr ⟨_, rfl, bind_eq_ok.mpr ⟨_, rfl, ?_⟩⟩⟩
  refine bind_eq_ok.mpr ⟨_, c.decode, bind_eq_ok.mpr ⟨p, okOr_eq_ok.mpr (c.named p hp), ?_⟩⟩
  refine bind_eq_ok.mpr ⟨kp, okOr_eq_ok.mpr hdec, bind_eq_ok.mpr ⟨_, hids, ?_⟩⟩
  rw [c.maxSigners_eq, c.minSigners_eq]
  exact bind_eq_ok.mpr ⟨share, hshare, rfl⟩

theorem no_session (hempty : keys.deserializeKeyPackage [] = none) {rng : UInt16 → Rng} {p : UInt16}
    (hp : p ∈ r.ids) (hrole : r.role p = none) (body : Ceremony (KeyPackage F G × PublicKeyPackage F G)) :
    c.session rng p ≠ .ok body := by
  intro h
  obtain ⟨_, -, h⟩ := bind_eq_ok.mp h
  obtain ⟨_, -, h⟩ := bind_eq_ok.mp h
  obtain ⟨okp, hokp, h⟩ := bind_eq_ok.mp h
  rw [okOr_eq_ok] at hokp
  rcases c.joining p hp hrole with hnone | hnil
  · rw [hnone] at hokp
    nomatch hokp
  · obtain rfl := Option.some.inj (hnil.symm.trans hokp)
    obtain ⟨_, -, h⟩ := bind_eq_ok.mp h
    obtain ⟨_, -, h⟩ := bind_eq_ok.mp h
    obtain ⟨_, hkp, -⟩ := bind_eq_ok.mp h
    rw [okOr_eq_ok, hempty] at hkp
    nomatch hkp

theorem body_of_role {rng : UInt16 → Rng} {p : UInt16} (hp : p ∈ r.ids) (hrole : r.role p ≠ none)
    {share : F} (hshare : r.additiveShare p = .ok share) :
    c.body rng p = reshareRun keys.toFrostCore p n minSigners share c.setup.expectedVk (rng p) := by
  obtain ⟨kp, hkp⟩ := Option.ne_none_iff_exists'.mp hrole
  unfold body
  rw [session_of_role hp hkp hshare]

section Agree

variable (doc : keys.Documented) (hmin : minSigners ≠ 0) {rng : UInt16 → Rng}
  {deal : Deal keys.toFrostCore n minSigners} (hids : deal.ids = r.ids) {share : UInt16 → F}
  (hshare : ∀ p ∈ r.ids, r.additiveShare p = .ok (share p)) {bytes : UInt16 → Bytes}
  (hpart1 : ∀ p ∈ r.ids, resharePart1 keys.toFrostCore p n minSigners (share p) (rng p) =
    .ok (deal.secret p, bytes p))
  (hbytes : ∀ s ∈ deal.ids, keys.serializeRound1 (deal.package s) = some (bytes s))
include doc hids hshare hpart1 hbytes

theorem le_of_reads (h2 : 2 ≤ n) (hrole : ∀ p ∈ r.ids, r.role p ≠ none)
    (hreads : ∀ p ∈ r.ids, ∃ order a, order.Perm (r.ids.erase p) ∧
      Reads frame (exchange r.ids bytes deal.round2Bytes order p) [] a (c.body rng p)) :
    ∀ p ∈ r.ids, p ≤ n := by
  intro q hq
  -- some other party sends its second package to `q`
  obtain ⟨x, hx⟩ : ∃ x, x ∈ r.ids.erase q := by
    refine List.exists_mem_of_length_pos ?_
    rw [List.length_erase_of_mem hq, r.length]
    rw [UInt16.le_iff_toNat_le] at h2
    have h : (2 : UInt16).toNat = 2 := rfl
    omega
  obtain ⟨hne, hx⟩ := r.nodup.mem_erase_iff.mp hx
  obtain ⟨order, ⟨key, pub⟩, -, hreads⟩ := hreads x hx
  rw [body_of_role hx (hrole x hx) (hshare x hx)] at hreads
  have hfull := hreads.eval_of_full (fits_exchange (r.nodup.erase x))
    (length_exchange (r.nodup.erase x))
  unfold reshareRun at hfull
  obtain ⟨idMap, hidMap, hfull⟩ := Proc.eval_liftM_bind_ok.mp hfull
  obtain ⟨⟨secret1, r1Bytes⟩, hr1, hfull⟩ := Proc.eval_liftM_bind_ok.mp hfull
  obtain ⟨rfl, rfl⟩ := Prod.mk.inj (Except.ok.inj (hr1.symm.trans (hpart1 x hx)))
  obtain ⟨keys', t, hrun, -⟩ := Proc.eval_bind_ok.mp hfull
  rw [List.map_append, List.map_map, ← hids] at hrun
  have hxd : x ∈ deal.ids := hids ▸ hx
  have hq' : q ∈ deal.others x := Deal.mem_others.mpr ⟨hne.symm, hids ▸ hq⟩
  obtain ⟨m, hm⟩ := Deal.lookup_of_runRounds doc.toCore hxd hbytes hrun q hq'
  exact (mem_upTo.mp (mem_upTo_of_lookup doc.toCore hidMap (deal.tryFrom q (hids ▸ hq)) hm)).2

include hmin

theorem exists_follows (hgroup : deal.groupSecret = f.eval 0) (hrole : ∀ p ∈ r.ids, r.role p ≠ none)
    (hn : ∀ p ∈ r.ids, p ≤ n) :
    ∃ idMap : IdMap, (∀ s ∈ deal.ids, lookupU16 keys.toFrostCore idMap (deal.ident s) = .ok s) ∧
      ∀ p ∈ deal.ids, Follows frame (deal.rounds bytes idMap p) [] (deal.key p, deal.publicKey p)
        (c.body rng p) := by
  obtain ⟨idMap, ident, hidMap, hident, hlookup⟩ := exists_idMap doc.toCore n
  have hlookup : ∀ s ∈ deal.ids, lookupU16 keys.toFrostCore idMap (deal.ident s) = .ok s := by
    intro s hs
    have hzero : s ≠ 0 := doc.toCore.ne_zero_of_tryFrom (deal.tryFrom s hs)
    have hs' : s ∈ upTo n := mem_upTo.mpr ⟨hzero, hn s (hids ▸ hs)⟩
    rw [← Option.some.inj ((hident s hs').symm.trans (deal.tryFrom s hs))]
    exact hlookup s hs'
  refine ⟨idMap, hlookup, fun p hp => ?_⟩
  have hp' : p ∈ r.ids := hids ▸ hp
  rw [body_of_role hp' (hrole p hp') (hshare p hp')]
  exact Deal.follows_reshareRun doc.toCore hmin hp hidMap hlookup (hpart1 p hp') hbytes
    (hgroup ▸ c.expected)

/-- The sessions agree with the round-by-round calls of the same deal exactly if nobody joins,
the parties are numbered from one to the number of signers, and the run keeps the rounds apart. -/
theorem sessionsAgree_iff (hempty : keys.deserializeKeyPackage [] = none) (h2 : 2 ≤ n)
    (hgroup : deal.groupSecret = f.eval 0) {acts : List Net.Action}
    {net : Net (KeyPackage F G × PublicKeyPackage F G)}
    (hr : Net.run ⟨r.ids.toFinset, ∅⟩ (c.body rng) acts = some net) :
    SessionsAgree r.ids (c.session rng) (c.body rng) bytes deal.round2Bytes sessionResult
      (fun p => ⟨deal.key p, deal.publicKey p, none⟩) acts ↔
      (∀ p ∈ r.ids, r.role p ≠ none) ∧ (∀ p ∈ r.ids, p ≤ n) ∧
        Net.KeepsPhase ⟨r.ids.toFinset, ∅⟩ (c.body rng) (othersTwice r.ids) acts := by
  constructor
  · rintro ⟨hcreated, hreads, houtcome⟩
    have hrole : ∀ p ∈ r.ids, r.role p ≠ none := by
      intro p hp hnone
      obtain ⟨b, hb⟩ := hcreated p hp
      exact no_session hempty hp hnone b hb
    have hn : ∀ p ∈ r.ids, p ≤ n := by
      refine le_of_reads (c := c) doc hids hshare hpart1 hbytes h2 hrole fun p hp => ?_
      obtain ⟨order, a, hperm, -, h⟩ := hreads p hp
      exact ⟨order, a, hperm, h⟩
    refine ⟨hrole, hn, ?_⟩
    obtain ⟨idMap, hlookup, hfollows⟩ :=
      exists_follows (c := c) doc hmin hids hshare hpart1 hbytes hgroup hrole hn
    have hs := Deal.scripted doc.toCore hlookup hfollows
    rw [← hids] at hr houtcome ⊢
    by_contra hbreak
    obtain ⟨pre, u, hpre, hu, p, hp, e, he⟩ := hs.error_of_not_keepsPhase hr hbreak
    nomatch houtcome pre hpre u hu p (List.mem_toFinset.mp hp) _ he
  · rintro ⟨hrole, hn, hkeep⟩
    obtain ⟨idMap, hlookup, hfollows⟩ :=
      exists_follows (c := c) doc hmin hids hshare hpart1 hbytes hgroup hrole hn
    refine ⟨?_, ?_, ?_⟩
    · intro p hp
      obtain ⟨kp, hkp⟩ := Option.ne_none_iff_exists'.mp (hrole p hp)
      exact ⟨_, session_of_role hp hkp (hshare p hp)⟩
    · rw [← hids]
      intro p hp
      obtain ⟨order, hperm, hrounds⟩ := Deal.rounds_eq_exchange doc.toCore bytes hlookup p
      exact ⟨order, _, hperm, rfl, hrounds ▸ (hfollows p hp).reads⟩
    · rw [← hids] at hr hkeep ⊢
      intro pre hpre net hnet p hp x hx
      have hs := Deal.scripted doc.toCore hlookup hfollows
      rcases hs.planned.outcome_of_keepsPhase hnet (hkeep.mono hpre) (List.mem_toFinset.mpr hp) with
        hnone | hok
      · simp [hnone] at hx
      · obtain rfl := Option.some.inj (hok.symm.trans hx)
        rfl

end Agree

end ReshareClients

end Ceremony
