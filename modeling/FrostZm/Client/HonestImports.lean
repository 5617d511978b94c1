import FrostZm.Client.KeyImportLaws

/-!
# The key that honest parties import

Over a relay that hands over only what the parties have posted, every run of the Zcash client that
returns has a share of the coordinator's key and its metadata. With at most 256 parties nothing but
the relay stops a run, and it stops one by a repeat only if it hands a message over twice; with more
parties no run returns.
-/

set_option linter.unusedSectionVars false

namespace KeyImport

open Relay Exchanges Ceremony Shamir

variable {F G Rng : Type} [Field F] [DecidableEq F] [Ord F] [Std.TransOrd F] [Std.LawfulEqOrd F]
  [AddCommGroup G] [Module F G]

/-! ## The runs of all parties -/

namespace Setting

variable (prims : Primitives) (json : Json) (lib : FroztLib F G Rng) (w : Setting Rng)

def run (p : UInt16) : Except Stop KeygenResult × State :=
  runKeyImport prims json (w.network p) lib (w.party p) (w.config p) (w.rng p)
    (State.init (w.client p))

def posted (q : UInt16) : List Wire := (w.run prims json lib q).2.posts.map (Post.wire json)

/-- Whatever a party is handed was posted to it by another one's run. -/
def HonestRelay : Prop := Relayed prims w.group (w.posted prims json lib) fun p => (w.network p).polls

/-- Among what `p` is handed under an id is one posted message twice. -/
def Repeated (p : UInt16) (messageID : GoString) : Prop :=
  HandedTwice prims w.group (w.posted prims json lib)
    (((w.network p).polls messageID).flatMap Collect.Poll.deliveries)

/-- No client knows a number that its sender has not given yet, and no counter comes to its end. -/
structure Numbered : Prop where
  fresh : ∀ p ∈ w.ids, ∀ q ∈ w.ids, ∀ k,
    (jsonString w.sessionID ++ 58 :: w.name q, k) ∈ (w.client p).seenSeqs →
      k.toNat ≤ (w.client q).seqCounter.toNat
  count : ∀ q ∈ w.ids,
    (w.client q).seqCounter.toNat + (w.run prims json lib q).2.posts.length < 2 ^ 64

/-- The first call of a party. Only the first party has the seed. -/
def part1 (p : UInt16) : Result (Round1SecretPackage F G × Bytes × Bytes × Bytes) :=
  froztKeyImportPart1 lib p w.maxSigners w.minSigners (if p = 1 then (w.config p).seed else [])
    (w.config p).accountIndex (w.rng p)

end Setting

/-! ## Numbers -/

theorem toNat_number {c : UInt64} {n i : ℕ} (h : c.toNat + n < 2 ^ 64) (hi : i < n) :
    (c + .ofNat (i + 1)).toNat = c.toNat + i + 1 := by
  rw [UInt64.toNat_add, UInt64.toNat_ofNat_of_lt' (by change i + 1 < 2 ^ 64; omega), Nat.mod_eq_of_lt]
  · omega
  · omega

theorem nodup_numbers {c : UInt64} {n : ℕ} (h : c.toNat + n < 2 ^ 64) :
    ((List.range n).map fun i => c + .ofNat (i + 1)).Nodup := by
  apply List.Nodup.map_on _ List.nodup_range
  intro i hi i' hi' heq
  have hnat := congrArg UInt64.toNat heq
  rw [toNat_number h (List.mem_range.mp hi), toNat_number h (List.mem_range.mp hi')] at hnat
  omega

theorem lt_of_mem_numbers {c m : UInt64} {n : ℕ} (h : c.toNat + n < 2 ^ 64)
    (hm : m ∈ (List.range n).map fun i => c + .ofNat (i + 1)) : c.toNat < m.toNat := by
  obtain ⟨i, hi, rfl⟩ := List.mem_map.mp hm
  rw [toNat_number h (List.mem_range.mp hi)]
  omega

namespace Script

variable {prims : Primitives} {json : Json} {lib : FroztLib F G Rng} {w : Setting Rng}
  {s : Script lib w} {p : UInt16} {k : ℕ}

theorem heard_of_right (primsDoc : prims.Documented) (hjson : json.Documented prims)
    (hutf8 : ∀ name ∈ w.allParties, ValidUtf8 name) (hrelay : w.HonestRelay prims json lib)
    (hp : p ∈ s.deal.ids)
    (hright : ∀ q ∈ s.deal.ids, ∀ post ∈ (w.run prims json lib q).2.posts,
      stage post.messageID < k → Right w.group (s.said prims json) q (post.wire json)) :
    s.Heard prims json p k := by
  intro messageID hk d hd
  have hgroup : w.group.ids = s.deal.ids := s.ids.symm
  have htells : Tells prims w.group (s.said prims json) messageID p
      (((w.network p).polls messageID).flatMap Collect.Poll.deliveries) := by
    refine Relayed.tells primsDoc (fun q hq => hutf8 _ (Setting.name_mem hq)) hrelay (hgroup ▸ hp)
      fun q hq wire hwire hid => ?_
    obtain ⟨post, hpost, rfl⟩ := List.mem_map.mp hwire
    obtain rfl : post.messageID = messageID := hid
    exact hright q (hgroup ▸ hq) post hpost hk
  obtain ⟨q, hq, hne, text, htext, hverify⟩ := htells d hd
  obtain ⟨body, hbody, rfl⟩ := Option.map_eq_some_iff.mp htext
  refine ⟨q, hgroup ▸ hq, hne, body, hbody, ?_⟩
  unfold Collect.entryOf
  rw [hverify _ rfl]
  exact readable_told hjson hbody

section Documented

variable (doc : lib.toFrostCore.Documented) (short : lib.toFrostCore.ShortPackages)
  (hne : ∀ id, lib.serializeIdentifier id ≠ []) (primsDoc : prims.Documented)
  (hjson : json.Documented prims) (hutf8 : ∀ name ∈ w.allParties, ValidUtf8 name)
  (hrelay : w.HonestRelay prims json lib)
include doc short hne primsDoc hjson hutf8 hrelay

theorem heard (hp : p ∈ s.deal.ids) : s.Heard prims json p 5 := by
  have hall : ∀ q : { q // q ∈ s.deal.ids }, ∀ post ∈ (w.run prims json lib q).2.posts,
      Right w.group (s.said prims json) q (post.wire json) := by
    refine Posting.right_of_stages (fun post : Post => stage post.messageID) ?_
    intro k hbelow q post hpost hk
    have hheard : s.Heard prims json q k :=
      heard_of_right primsDoc hjson hutf8 hrelay q.2 fun r hr post hpost hlt =>
        hbelow ⟨r, hr⟩ post hpost hlt
    obtain ⟨more, hposts, hmore⟩ := (meets_runKeyImport (fun _ => False) doc short hne
      primsDoc q.2 hheard _ (State.follows_init _) (known_init _ _)).moves.posts
    have hpost' : post ∈ more := by
      rw [show more = (w.run prims json lib q).2.posts from hposts.symm]
      exact hpost
    exact hmore post hpost' hk
  exact heard_of_right primsDoc hjson hutf8 hrelay hp fun q hq post hpost _ => hall ⟨q, hq⟩ post hpost

theorem follows_run (hp : p ∈ s.deal.ids) :
    (w.run prims json lib p).2.Follows (w.client p) :=
  (meets_runKeyImport (fun _ => False) doc short hne primsDoc hp
    (heard doc short hne primsDoc hjson hutf8 hrelay hp) _ (State.follows_init _)
    (known_init _ _)).moves.keeps

theorem unseen (hnumbered : w.Numbered prims json lib) (hp : p ∈ s.deal.ids) :
    Unseen (w.client p) (w.network p).polls (w.Repeated prims json lib p) := by
  have hgroup : w.group.ids = s.deal.ids := s.ids.symm
  have hids : ∀ q ∈ w.group.ids, q ∈ w.ids := fun q hq => hq
  have hfollows := fun q (hq : q ∈ s.deal.ids) =>
    follows_run doc short hne primsDoc hjson hutf8 hrelay hq
  refine Relayed.unseen hrelay (hgroup ▸ hp) (fun q hq q' hq' => (Setting.name_inj hq hq').mp)
    (fun q hq => hutf8 _ (Setting.name_mem hq)) (fun q hq => ?_) fun q hq wire hwire hold => ?_
  · have hnumbers : (w.posted prims json lib q).map Wire.sequenceNo =
        (w.run prims json lib q).2.posts.map Post.sequenceNo := by
      unfold Setting.posted
      rw [List.map_map]
      rfl
    rw [hnumbers, (hfollows q (hgroup ▸ hq)).numbers]
    exact nodup_numbers (hnumbered.count q (hids q hq))
  · obtain ⟨post, hpost, rfl⟩ := List.mem_map.mp hwire
    have hmem := List.mem_map_of_mem (f := Post.sequenceNo) hpost
    rw [(hfollows q (hgroup ▸ hq)).numbers] at hmem
    have hle := hnumbered.fresh p (hids p (hgroup ▸ hp)) q (hids q hq) _ hold
    have hlt := lt_of_mem_numbers (hnumbered.count q (hids q hq)) hmem
    exact absurd hle (Nat.not_le.mpr hlt)

theorem run_result (hnumbered : w.Numbered prims json lib) (hp : p ∈ s.deal.ids) :
    (∀ r, (w.run prims json lib p).1 = .ok r → w.maxSigners ≤ 256 ∧ r = s.result p) ∧
      (w.maxSigners ≤ 256 → ∀ e, (w.run prims json lib p).1 = .error e →
        e.FromRelay (w.Repeated prims json lib p)) := by
  have hallows := meets_runKeyImport (w.Repeated prims json lib p) doc short hne primsDoc
    hp (heard doc short hne primsDoc hjson hutf8 hrelay hp) _ (State.follows_init (w.client p))
    (known_init _ _)
  have hunseen := unseen doc short hne primsDoc hjson hutf8 hrelay hnumbered hp
  exact ⟨fun r hr => hallows.returns r hr (Nat.le_refl _),
    fun hn e he => hallows.stops e he (Nat.le_refl _) ⟨hn, hunseen⟩⟩

end Documented

end Script

/-! ## The script of a seed -/

section Seed

variable {lib : FroztLib F G Rng} {w : Setting Rng} {n t id : UInt16} {seed : Bytes}
  {accountIndex : UInt32} {rng : Rng} {secret : Round1SecretPackage F G} {pkg vk extras : Bytes}
  {term : F}

theorem froztKeyImportPart1_ok
    (h : froztKeyImportPart1 lib id n t seed accountIndex rng = .ok (secret, pkg, vk, extras)) :
    2 ≤ t ∧ t ≤ n ∧ ∃ term, froztImportKeys lib n (Signing.goSlice seed) accountIndex =
      .ok (term, vk, extras) ∧
      Ceremony.keyImportPart1 lib.toFrostCore id n t term rng = .ok (secret, pkg) := by
  unfold froztKeyImportPart1 at h
  split at h
  · simp [throw, throwThe, MonadExceptOf.throw, bind, Except.bind] at h
  · next hcheck =>
    obtain ⟨-, -, h⟩ := bind_eq_ok.mp h
    obtain ⟨⟨term, vk', extras'⟩, hkeys, h⟩ := bind_eq_ok.mp h
    obtain ⟨⟨secret', pkg'⟩, hpart1, h⟩ := bind_eq_ok.mp h
    simp only [pure, Except.pure, Except.ok.injEq, Prod.mk.injEq] at h
    obtain ⟨rfl, rfl, rfl, rfl⟩ := h
    rw [not_or, UInt16.not_lt, UInt16.not_lt] at hcheck
    exact ⟨hcheck.1, hcheck.2, term, hkeys, hpart1⟩

theorem froztImportKeys_seed (doc : lib.Documented) (hseed : seed ≠ [])
    (h : froztImportKeys lib n (Signing.goSlice seed) accountIndex = .ok (term, vk, extras)) :
    ∃ x, Frozt.importedSecret lib seed accountIndex = .ok x ∧ term = deriveConstantTerm x n ∧
      lib.serializeVerifyingKey (x • lib.generator) = some vk ∧
      Frozt.deriveExtrasFromSeed lib seed accountIndex = .ok extras ∧ extras.length = 96 := by
  rw [goSlice_of_ne_nil hseed] at h
  unfold froztImportKeys at h
  cases seed with
  | nil => exact absurd rfl hseed
  | cons b rest =>
    simp only at h
    obtain ⟨sk, hsk, h⟩ := bind_eq_ok.mp h
    obtain ⟨vk', hvk, h⟩ := bind_eq_ok.mp h
    obtain ⟨extras', hextras, h⟩ := bind_eq_ok.mp h
    obtain ⟨x, hx, h⟩ := bind_eq_ok.mp h
    simp only [pure, Except.pure, Except.ok.injEq, Prod.mk.injEq] at h
    obtain ⟨rfl, rfl, rfl⟩ := h
    obtain ⟨x', hx', hvk⟩ := bind_eq_ok.mp hvk
    obtain rfl := Except.ok.inj (hx.symm.trans hx')
    obtain ⟨extras'', hderived, hlen⟩ := Frozt.exists_extras doc hsk
    obtain rfl := Except.ok.inj (hextras.symm.trans hderived)
    exact ⟨x, bind_eq_ok.mpr ⟨sk, hsk, hx⟩, rfl, okOr_eq_ok.mp hvk, hderived, hlen⟩

end Seed

/-! ## Honest imports -/

section Honest

variable {prims : Primitives} {json : Json} {lib : FroztLib F G Rng} {w : Setting Rng}
  {secret : UInt16 → Round1SecretPackage F G} {pkg vk extras : UInt16 → Bytes}

theorem signingShare_eq (doc : lib.toFrostCore.Documented) {n t p : UInt16}
    {deal : Deal lib.toFrostCore n t} (hp : p ∈ deal.ids) : (deal.key p).signingShare =
      (deal.ids.map fun q => evalPoly (deal.secret q).coefficients (p.toNat : F)).sum := by
  rw [Deal.key_signingShare doc hp, doc.tryFrom_eq_some_iff.mp (deal.tryFrom p hp), Deal.groupPoly,
    Polynomial.eval_listSum, List.map_map]
  simp only [Function.comp_def, eval_polyOf]

theorem exists_script (doc : lib.Documented) (enc : lib.EncodesKeys)
    (hvkne : ∀ g b, lib.serializeVerifyingKey g = some b → b ≠ []) (hsome : w.allParties ≠ [])
    (hseed : (w.config 1).seed ≠ [])
    (hpart1 : ∀ p ∈ w.ids, w.part1 lib p = .ok (secret p, pkg p, vk p, extras p))
    (hshares : ∀ p ∈ w.ids,
      (w.ids.map fun q => evalPoly (secret q).coefficients (p.toNat : F)).sum ≠ 0) :
    ∃ s : Script lib w,
      Frozt.importedSecret lib (w.config 1).seed (w.config 1).accountIndex =
        .ok s.deal.groupSecret ∧
      Frozt.deriveExtrasFromSeed lib (w.config 1).seed (w.config 1).accountIndex =
        .ok s.extras := by
  have hlen : w.ids.length = w.maxSigners.toNat := length_upTo _
  have hone : (1 : UInt16) ∈ w.ids := by
    rw [Setting.ids, mem_upTo, UInt16.le_iff_toNat_le, Setting.toNat_maxSigners]
    exact ⟨by decide, List.length_pos_iff.mpr hsome⟩
  have hparts := fun p hp => froztKeyImportPart1_ok (hpart1 p hp)
  obtain ⟨h2, hle, -⟩ := hparts 1 hone
  choose! term hkeys hround1 using fun p hp => (hparts p hp).2.2
  have hthreshold : w.minSigners ≠ 0 := by
    intro h0
    rw [h0] at h2
    exact absurd h2 (by decide)
  -- the term of the first party, and those of the others
  have hfirst := hkeys 1 hone
  rw [if_pos rfl] at hfirst
  obtain ⟨x, hx, hterm, hvk, hextras, hlength⟩ := froztImportKeys_seed doc hseed hfirst
  have hothers : ∀ p ∈ w.ids, p ≠ 1 → term p = 1 ∧ vk p = [] ∧ extras p = [] := by
    intro p hp hp1
    have h := hkeys p hp
    rw [if_neg hp1] at h
    obtain ⟨h1, h⟩ := Prod.mk.inj (Except.ok.inj h)
    obtain ⟨h2, h3⟩ := Prod.mk.inj h
    exact ⟨h1.symm, h2.symm, h3.symm⟩
  let i : Import F Rng w.maxSigners :=
    { ids := w.ids, nodup := nodup_upTo _, length := hlen
      ne_zero := fun p hp => (mem_upTo.mp hp).1, seedHolder := 1, mem := hone, secret := x
      rng := w.rng }
  obtain ⟨deal, (hids : deal.ids = w.ids), hsecret, hdeal⟩ :=
    Ceremony.exists_deal doc.toCore hthreshold (nodup_upTo _) hlen hround1
  have hgroup : deal.groupSecret = x := by
    rw [Deal.groupSecret, hids, ← show i.secret = x from rfl, ← i.sum_constantTerm]
    refine congrArg List.sum (List.map_congr_left fun p hp => ?_)
    rw [(hdeal p hp).2]
    unfold Import.constantTerm
    split
    · next hp1 =>
      rw [hp1]
      exact hterm
    · next hp1 => exact (hothers p hp hp1).1
  have hx0 : x ≠ 0 := by
    rintro rfl
    exact (doc.toCore.verifyingKey_ok_iff _).mp ⟨_, hvk⟩ (zero_smul F lib.generator)
  have hstored : ∀ p ∈ deal.ids, (∃ b, lib.serializeKeyPackage (deal.key p) = some b) ∧
      ∃ b, lib.serializePublicKeyPackage (deal.publicKey p) = some b := by
    intro p hp
    refine Deal.exists_keyEncodings doc.toKeys enc hp (hgroup ▸ hx0) fun q hq => ?_
    rw [signingShare_eq doc.toCore hq, hids, hsecret]
    exact hshares q (hids ▸ hq : q ∈ w.ids)
  choose! keyBytes hkeyBytes using fun p hp => (hstored p hp).1
  choose! pubBytes hpubBytes using fun p hp => (hstored p hp).2
  have hmem : ∀ p ∈ deal.ids, p ∈ w.ids := by
    rw [hids]
    exact fun _ h => h
  have hcalls : ∀ p ∈ deal.ids, froztKeyImportPart1 lib p w.maxSigners w.minSigners
      (if p = 1 then (w.config p).seed else []) (w.config p).accountIndex (w.rng p) =
        .ok (deal.secret p, pkg p, if p = 1 then (vk 1, extras 1) else ([], [])) := by
    intro p hp
    have hcall := hpart1 p (hmem p hp)
    unfold Setting.part1 at hcall
    rw [hcall, hsecret]
    split
    · next hp1 => rw [hp1]
    · next hp1 => rw [(hothers p (hmem p hp) hp1).2.1, (hothers p (hmem p hp) hp1).2.2]
  exact ⟨⟨deal, hids, hthreshold, pkg, fun p hp => (hdeal p (hmem p hp)).1, vk 1, hvkne _ _ hvk,
    hgroup ▸ hvk, extras 1, hlength, hcalls, keyBytes, hkeyBytes, pubBytes, hpubBytes⟩,
    hgroup ▸ hx, hextras⟩

/-- A share of the key whose secret is the value of `f` at 0, with the first party's metadata. -/
def HoldsImport (lib : FroztLib F G Rng) (w : Setting Rng) (f : Polynomial F) (p : UInt16)
    (r : KeygenResult) : Prop :=
  (∃ key pub, lib.deserializeKeyPackage r.keyPackage = some key ∧
    lib.deserializePublicKeyPackage r.pubKeyPackage = some pub ∧
    key.signingShare = f.eval (p.toNat : F) ∧ key.verifyingKey = f.eval 0 • lib.generator ∧
    pub.verifyingKey = f.eval 0 • lib.generator) ∧
  Frozt.deriveExtrasFromSeed lib (w.config 1).seed (w.config 1).accountIndex =
    .ok r.saplingExtras ∧
  r.birthday = (w.config 1).birthday

/-- Whoever returns has a share of the imported key and the metadata of the first party, and as
long as all ids can be read, only the relay stops a run: it does not answer, or it hands over one
message twice. -/
theorem honest_imports (doc : lib.Documented) (enc : lib.EncodesKeys)
    (hne : ∀ id, lib.serializeIdentifier id ≠ [])
    (hvkne : ∀ g b, lib.serializeVerifyingKey g = some b → b ≠ []) (primsDoc : prims.Documented)
    (hjson : json.Documented prims) (hsome : w.allParties ≠ []) (hseed : (w.config 1).seed ≠ [])
    (hpart1 : ∀ p ∈ w.ids, w.part1 lib p = .ok (secret p, pkg p, vk p, extras p))
    (hshares : ∀ p ∈ w.ids,
      (w.ids.map fun q => evalPoly (secret q).coefficients (p.toNat : F)).sum ≠ 0)
    (hutf8 : ∀ name ∈ w.allParties, ValidUtf8 name) (hnumbered : w.Numbered prims json lib)
    (hrelay : w.HonestRelay prims json lib) :
    ∃ f : Polynomial F, f.degree < w.minSigners.toNat ∧
      Frozt.importedSecret lib (w.config 1).seed (w.config 1).accountIndex = .ok (f.eval 0) ∧
      ∀ p ∈ w.ids,
        (∀ r, (w.run prims json lib p).1 = .ok r → w.maxSigners ≤ 256 ∧ HoldsImport lib w f p r) ∧
        (w.maxSigners ≤ 256 → ∀ e, (w.run prims json lib p).1 = .error e →
          e.FromRelay (w.Repeated prims json lib p)) := by
  obtain ⟨s, hsecret, hextras⟩ := exists_script doc enc hvkne hsome hseed hpart1 hshares
  refine ⟨s.deal.groupPoly, Deal.groupPoly_degree_lt, ?_, fun p hp => ?_⟩
  · rw [Deal.groupPoly_eval_zero, hsecret]
  rw [← s.ids] at hp
  obtain ⟨hok, herror⟩ := Script.run_result doc.toCore enc.toShort hne primsDoc hjson hutf8 hrelay
    hnumbered hp
  refine ⟨fun r hr => ?_, herror⟩
  obtain ⟨hn, rfl⟩ := hok r hr
  refine ⟨hn, ⟨s.deal.key p, s.deal.publicKey p, ?_, ?_, ?_, ?_, ?_⟩, hextras, rfl⟩
  · exact (doc.toKeys.keyPackage_roundtrip _ _ (s.keyBytes_eq p hp)).1
  · exact (doc.toKeys.publicKeyPackage_roundtrip _ _ (s.pubBytes_eq p hp)).1
  · rw [Deal.key_signingShare doc.toCore hp,
      doc.toCore.tryFrom_eq_some_iff.mp (s.deal.tryFrom p hp)]
  · rw [Deal.key_verifyingKey doc.toCore hp, Deal.groupPoly_eval_zero]
  · rw [Deal.publicKey_verifyingKey doc.toCore hp, Deal.groupPoly_eval_zero]

end Honest

/-! ## Two parties -/

section Pair

open Reference

/-- The ids in front of the data. -/
def pairJson : Json where
  roundMessage body :=
    if body.length < 4 then none
    else some ⟨u16FromLeBytes (body.take 2), body.drop 4, u16FromLeBytes (slice body 2 2)⟩
  commitmentMessage _ := none
  signShareMessage _ := none
  marshal m := u16ToLeBytes m.senderID ++ (u16ToLeBytes m.receiverID ++ m.data)

theorem pairJson_read (m : Collect.RoundMessage) :
    pairJson.roundMessage (pairJson.marshal m) = some m := by
  have hmarshal : pairJson.marshal m =
      u16ToLeBytes m.senderID ++ (u16ToLeBytes m.receiverID ++ m.data) := rfl
  have hread : ∀ body, pairJson.roundMessage body = if body.length < 4 then none
      else some ⟨u16FromLeBytes (body.take 2), body.drop 4, u16FromLeBytes (slice body 2 2)⟩ :=
    fun _ => rfl
  have hids : slice (pairJson.marshal m) 2 2 = u16ToLeBytes m.receiverID := by
    unfold slice
    rw [hmarshal, List.drop_left' (length_u16ToLeBytes _), List.take_left' (length_u16ToLeBytes _)]
  have hdata : (pairJson.marshal m).drop 4 = m.data := by
    rw [hmarshal, ← List.append_assoc, List.drop_left' (by simp)]
  have hsender : (pairJson.marshal m).take 2 = u16ToLeBytes m.senderID :=
    List.take_left' (length_u16ToLeBytes _)
  have hlen : ¬ (pairJson.marshal m).length < 4 := by
    simp [hmarshal]
    omega
  rw [hread, if_neg hlen, hids, hdata, hsender, u16FromLeBytes_toLeBytes, u16FromLeBytes_toLeBytes]

theorem pairJson_documented : pairJson.Documented samplePrims where
  base64 _ _ _ := pairJson_read _
  hex _ _ _ := pairJson_read _

def pairNames : List GoString := [ascii "a", ascii "b"]

theorem pairNames_nodup : pairNames.Nodup := by decide

theorem pairNames_small : pairNames.length < 65536 := by decide

/-- Two parties that hear nothing. The first one has a seed of zeros. -/
def quietPair : Setting ℕ where
  sessionID := ascii "s"
  allParties := pairNames
  distinct := pairNames_nodup
  small := pairNames_small
  minSigners := 2
  config _ := ⟨List.replicate 64 0, 9, 5⟩
  rng := UInt16.toNat
  client _ := { encryptionKey := some [1] }
  key := some [1]
  sameKey _ := rfl
  network _ := ⟨fun _ _ => true, fun _ => true, fun _ => []⟩

def pairOther (p : UInt16) : UInt16 := if p = 1 then 2 else 1

def pairPart1 (p : UInt16) : Round1SecretPackage Scalar Scalar × Bytes × Bytes × Bytes :=
  (quietPair.part1 frozt p).toOption.getD default

/-- What a party makes of the other one's package. -/
def pairRound2 (p : UInt16) : Bytes :=
  let encoded := froztEncodeMap frozt [(pairOther p, (pairPart1 (pairOther p)).2.1)]
  let packages := (froztDkgPart2 frozt (pairPart1 p).1 encoded).toOption.bind fun r =>
    froztDecodeMap frozt r.2
  ((packages.getD []).headD (0, [])).2

def pairMetadata : Bytes :=
  (keygenMetadataCreateWithExtras (pairPart1 1).2.2.2 5).toOption.getD []

def pairWire (p : UInt16) (messageID : GoString) (data : GoString) (receiverID : UInt16)
    (number : UInt64) : Wire :=
  ⟨messageID, [quietPair.name (pairOther p)], pairJson.marshal ⟨p, data, receiverID⟩, number⟩

def pairPosts (p : UInt16) : List Wire :=
  [pairWire p round1 (pairPart1 p).2.1 0 1, pairWire p round2 (pairRound2 p) (pairOther p) 2] ++
    if p = 1 then [pairWire p expectedVkPhase (pairPart1 p).2.2.1 0 3,
      pairWire p metadataPhase pairMetadata 0 4,
      pairWire p hashPhase (hexEncode (frozt.blake2b pairMetadata)) 0 5]
    else [pairWire p hashPhase (hexEncode (frozt.blake2b pairMetadata)) 0 3]

/-- Each of them is handed all that the other one posts. -/
def importPair : Setting ℕ :=
  { quietPair with
    network := fun p => ⟨fun _ _ => true, fun _ => true,
      handedOver samplePrims quietPair.group pairPosts p⟩ }

theorem pairPart1_eq {p : UInt16} (h : (importPair.part1 frozt p).toOption.isSome = true) :
    importPair.part1 frozt p = .ok (pairPart1 p) := by
  have hquiet : importPair.part1 frozt p = quietPair.part1 frozt p := rfl
  unfold pairPart1
  rw [hquiet] at h ⊢
  revert h
  generalize quietPair.part1 frozt p = x
  cases x <;> simp [Except.toOption]

theorem importPair_ids : importPair.ids = [1, 2] := by decide +kernel

theorem importPair_posted {q : UInt16} (hq : q ∈ importPair.ids) :
    importPair.posted samplePrims pairJson frozt q = pairPosts q := by
  have hposts : ([1, 2].all fun q => importPair.posted samplePrims pairJson frozt q = pairPosts q) =
      true := by
    decide +kernel
  rw [importPair_ids] at hq
  exact of_decide_eq_true (List.all_eq_true.mp hposts q hq)

theorem importPair_relay : importPair.HonestRelay samplePrims pairJson frozt := by
  intro p hp messageID d hd
  obtain ⟨q, hq, wire, hwire, hrest⟩ :=
    relayed_handedOver samplePrims quietPair.group pairPosts p hp messageID d hd
  rw [← importPair_posted hq] at hwire
  exact ⟨q, hq, wire, hwire, hrest⟩

theorem importPair_numbered : importPair.Numbered samplePrims pairJson frozt where
  fresh _ _ _ _ _ h := absurd h List.not_mem_nil
  count q hq := by
    have hlen := congrArg List.length (importPair_posted hq)
    unfold Setting.posted at hlen
    rw [List.length_map] at hlen
    have hle : (pairPosts q).length ≤ 5 := by
      unfold pairPosts
      split <;> simp
    have hzero : (importPair.client q).seqCounter.toNat = 0 := rfl
    omega

theorem encodeScalar_ne_nil (x : Scalar) : encodeScalar x ≠ [] := by
  intro h
  have hlen := length_encodeScalar x
  rw [h] at hlen
  simp at hlen

theorem honest_imports_pair : ∃ f : Polynomial Scalar, f.degree < 2 ∧
    ∀ p ∈ importPair.ids, ∃ r, (importPair.run samplePrims pairJson frozt p).1 = .ok r ∧
      HoldsImport frozt importPair f p r := by
  have hcalls : ([1, 2].all fun p => (importPair.part1 frozt p).toOption.isSome) = true := by
    decide +kernel
  have hnonzero : ([1, 2].all fun p : UInt16 => decide (([1, 2].map fun q =>
      evalPoly (pairPart1 q).1.coefficients (p.toNat : Scalar)).sum ≠ 0)) = true := by
    decide +kernel
  have hreturns : ([1, 2].all fun p =>
      (importPair.run samplePrims pairJson frozt p).1.toOption.isSome) = true := by
    decide +kernel
  have hpart1 : ∀ p ∈ importPair.ids, importPair.part1 frozt p =
      .ok ((pairPart1 p).1, (pairPart1 p).2.1, (pairPart1 p).2.2.1, (pairPart1 p).2.2.2) := by
    rw [importPair_ids]
    exact fun p hp => pairPart1_eq (List.all_eq_true.mp hcalls p hp)
  have hshares : ∀ p ∈ importPair.ids, (importPair.ids.map fun q =>
      evalPoly (pairPart1 q).1.coefficients (p.toNat : Scalar)).sum ≠ 0 := by
    rw [importPair_ids]
    exact fun p hp => of_decide_eq_true (List.all_eq_true.mp hnonzero p hp)
  have hvkne : ∀ g b, frozt.serializeVerifyingKey g = some b → b ≠ [] := by
    intro g b h
    obtain ⟨-, h⟩ := Option.ite_none_right_eq_some.mp (h : serializeVerifyingKey g = some b)
    exact Option.some.inj h ▸ encodeScalar_ne_nil g
  obtain ⟨f, hdegree, -, h⟩ := honest_imports frozt_documented keys_encodesKeys
    (fun id => encodeScalar_ne_nil id.toScalar) hvkne samplePrims_documented pairJson_documented
    (by decide) (by decide) hpart1 hshares (by decide) importPair_numbered importPair_relay
  refine ⟨f, hdegree, fun p hp => ?_⟩
  have hsome := List.all_eq_true.mp hreturns p (importPair_ids ▸ hp)
  cases hr : (importPair.run samplePrims pairJson frozt p).1 with
  | error e =>
    rw [hr] at hsome
    simp [Except.toOption] at hsome
  | ok r => exact ⟨r, rfl, ((h p hp).1 r hr).2⟩

end Pair

end KeyImport
