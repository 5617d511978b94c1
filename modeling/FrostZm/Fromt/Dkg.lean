import FrostZm.Ceremony.Exchange
import FrostZm.Fromt.KeyShare

/-!
# Key generation of the Monero ceremonies

Each round-1 package is followed by 32 bytes of the sender's view key share.
-/

set_option linter.unusedSectionVars false

variable {F G P Rng : Type} [Field F] [DecidableEq F] [Ord F] [Std.TransOrd F] [Std.LawfulEqOrd F]
  [AddCommGroup G] [Module F G] [AddCommGroup P]

open Ceremony

namespace Fromt

variable (lib : FromtLib F G P Rng)

structure DkgRound1Secret (F G : Type) [Zero F] where
  frostSecret : Round1SecretPackage F G
  viewKeyShare : Bytes

structure DkgRound2Secret (F G : Type) [Zero F] where
  frostSecret : Round2SecretPackage F G
  viewKeyShare : Bytes

def vkShareLen : Nat := 32

def splitFromtPackage (data : Bytes) : Result (Bytes × Bytes) := do
  failIf (data.length < vkShareLen) .serializationError
  let frostLen := data.length - vkShareLen
  return (data.take frostLen, data.drop frostLen)

/-- `for (id, bytes) in raw_map` -/
def insertPackage (maps : BTreeMap (Identifier F) (Round1Package F G) × BTreeMap (Identifier F) Bytes)
    (entry : Identifier F × Bytes) :
    Result (BTreeMap (Identifier F) (Round1Package F G) × BTreeMap (Identifier F) Bytes) := do
  let (frostData, vkBytes) ← splitFromtPackage entry.2
  let frostPkg ← okOr .serializationError (lib.deserializeRound1 frostData)
  return (maps.1.insert entry.1 frostPkg, maps.2.insert entry.1 vkBytes)

def decodeR1MapWithVk (data : Bytes) :
    Result (BTreeMap (Identifier F) (Round1Package F G) × BTreeMap (Identifier F) Bytes) := do
  let rawMap ← decodeMap data (decodeKey lib.toFrostCore) .ok
  rawMap.toList.foldlM (insertPackage lib) (∅, ∅)

def decodeR1Map (data : Bytes) : Result (BTreeMap (Identifier F) (Round1Package F G)) := do
  let (frostMap, _) ← decodeR1MapWithVk lib data
  return frostMap

def dkgPart2 (secret : DkgRound1Secret F G) (r1Data : Bytes) :
    Result (DkgRound2Secret F G × Bytes) := do
  let r1Pkgs ← decodeR1Map lib r1Data
  let (secret2, r2Pkgs) ← blameErr lib.toFrostCore .dkgError (lib.part2 secret.frostSecret r1Pkgs)
  let r2Bytes ← encodeR2Map lib.toFrostCore r2Pkgs
  return ({ frostSecret := secret2, viewKeyShare := secret.viewKeyShare }, r2Bytes)

/-- How the third rounds of the three ceremonies begin: the keys, and the view key shares of
the others. -/
def frostPart3 (secret : DkgRound2Secret F G) (r1Data r2Data : Bytes) :
    Result (KeyPackage F G × PublicKeyPackage F G × BTreeMap (Identifier F) Bytes) := do
  let (r1Pkgs, vkShares) ← decodeR1MapWithVk lib r1Data
  let r2Pkgs ← decodeR2Map lib.toFrostCore r2Data
  let (keyPackage, pubKeyPackage) ←
    blameErr lib.toFrostCore .dkgError (lib.part3 secret.frostSecret r1Pkgs r2Pkgs)
  return (keyPackage, pubKeyPackage, vkShares)

/-- The turn of the loop that adds a view key share to the sum. -/
def addShare (sum : F) (entry : Identifier F × Bytes) : Result F := do
  let s ← okOr .serializationError (lib.deserializeScalar entry.2)
  return sum + s

def aggregateViewKeyShares (ownShare : Bytes) (otherShares : BTreeMap (Identifier F) Bytes) :
    Result Bytes := do
  let own ← okOr .serializationError (lib.deserializeScalar ownShare)
  let sum ← otherShares.toList.foldlM (addShare lib) own
  return lib.serializeScalar sum

/-! ## The packages of a deal -/

variable {lib} {maxSigners minSigners : UInt16}
  {deal : Deal lib.toFrostCore maxSigners minSigners} {p : UInt16} {order : List UInt16}
  {bytes vk : UInt16 → Bytes}

theorem splitFromtPackage_append {b v : Bytes} (hv : v.length = vkShareLen) :
    splitFromtPackage (b ++ v) = .ok (b, v) := by
  have hlen : (b ++ v).length - vkShareLen = b.length := by
    rw [List.length_append]
    omega
  refine bind_eq_ok.mpr ⟨(), failIf_eq_ok.mpr ?_, ?_⟩
  · rw [List.length_append]
    omega
  · simp only [hlen, List.take_left, List.drop_left]
    rfl

theorem foldlM_insertPackage (ident : UInt16 → Identifier F) {package : UInt16 → Round1Package F G}
    (l : List UInt16) (hvk : ∀ s ∈ l, (vk s).length = vkShareLen)
    (hbytes : ∀ s ∈ l, lib.deserializeRound1 (bytes s) = some (package s))
    (m₁ : BTreeMap (Identifier F) (Round1Package F G)) (m₂ : BTreeMap (Identifier F) Bytes) :
    (l.map fun s => (ident s, bytes s ++ vk s)).foldlM (insertPackage lib) (m₁, m₂) =
      .ok (l.foldl (fun m s => m.insert (ident s) (package s)) m₁,
        l.foldl (fun m s => m.insert (ident s) (vk s)) m₂) := by
  induction l generalizing m₁ m₂ with
  | nil => rfl
  | cons s l ih =>
    rw [List.forall_mem_cons] at hvk hbytes
    have hstep : insertPackage lib (m₁, m₂) (ident s, bytes s ++ vk s) =
        .ok (m₁.insert (ident s) (package s), m₂.insert (ident s) (vk s)) := by
      refine bind_eq_ok.mpr ⟨_, splitFromtPackage_append hvk.1, ?_⟩
      exact bind_eq_ok.mpr ⟨_, okOr_eq_ok.mpr hbytes.1, rfl⟩
    rw [List.map_cons, List.foldlM_cons, hstep]
    exact ih hvk.2 hbytes.2 _ _

theorem decodeR1MapWithVk_roundData (doc : lib.Documented) (short : lib.ShortPackages)
    (horder : order.Perm (deal.others p)) (hvk : ∀ s ∈ deal.ids, (vk s).length = vkShareLen)
    (hbytes : ∀ s ∈ deal.ids, lib.serializeRound1 (deal.package s) = some (bytes s)) :
    decodeR1MapWithVk lib (roundData lib.toFrostCore deal.ident (fun s => bytes s ++ vk s) order) =
      .ok (deal.round1Map p, BTreeMap.tabulate deal.ident vk (deal.others p)) := by
  have hmem : ∀ s ∈ deal.others p, s ∈ deal.ids := fun s hs => (Deal.mem_others.mp hs).2
  have hinj : BTreeMap.Injective deal.ident (deal.others p) := Deal.others_injective doc.toCore
  have hraw : decodeMap (roundData lib.toFrostCore deal.ident (fun s => bytes s ++ vk s) order)
      (decodeKey lib.toFrostCore) .ok =
        .ok (BTreeMap.tabulate deal.ident (fun s => bytes s ++ vk s) (deal.others p)) := by
    refine Deal.decodeMap_roundData doc.toCore short horder fun s hs => ⟨?_, rfl⟩
    have hlen := Deal.length_round1 short (hmem s hs) (hbytes s (hmem s hs))
    rw [List.length_append, hvk s (hmem s hs)]
    exact hlen
  obtain ⟨l, hperm, htoList⟩ : ∃ l : List UInt16, (deal.others p).Perm l ∧
      (BTreeMap.tabulate deal.ident (fun s => bytes s ++ vk s) (deal.others p)).toList =
        l.map fun s => (deal.ident s, bytes s ++ vk s) :=
    BTreeMap.exists_toList_tabulate hinj Deal.nodup_others
  have hl : ∀ s ∈ l, s ∈ deal.ids := fun s hs => hmem s (hperm.mem_iff.mpr hs)
  have hinj' : BTreeMap.Injective deal.ident l := fun x hx y hy =>
    hinj x (hperm.mem_iff.mpr hx) y (hperm.mem_iff.mpr hy)
  have hfold := foldlM_insertPackage deal.ident l (fun s hs => hvk s (hl s hs))
    (fun s hs => doc.round1_roundtrip _ _ (hbytes s (hl s hs))) ∅ ∅
  refine bind_eq_ok.mpr ⟨_, hraw, ?_⟩
  rw [htoList, hfold, Deal.round1Map]
  refine congrArg Except.ok (congrArg₂ Prod.mk ?_ ?_)
  · exact BTreeMap.tabulate_eq_of_mem_iff hinj' fun s => hperm.symm.mem_iff
  · exact BTreeMap.tabulate_eq_of_mem_iff hinj' fun s => hperm.symm.mem_iff

theorem dkgPart2_ok (doc : lib.Documented) (short : lib.ShortPackages) (hp : p ∈ deal.ids)
    (horder : order.Perm (deal.others p)) (hvk : ∀ s ∈ deal.ids, (vk s).length = vkShareLen)
    (hbytes : ∀ s ∈ deal.ids, lib.serializeRound1 (deal.package s) = some (bytes s)) :
    ∃ order' : List UInt16, order'.Perm (deal.others p) ∧
      dkgPart2 lib ⟨deal.secret p, vk p⟩
          (roundData lib.toFrostCore deal.ident (fun s => bytes s ++ vk s) order) =
        .ok (⟨deal.secret2 p, vk p⟩,
          roundData lib.toFrostCore deal.ident (deal.round2Bytes p) order') := by
  obtain ⟨order', hperm, hencode⟩ := Deal.encodeR2Map_sent2Map doc.toCore deal p
  refine ⟨order', hperm, ?_⟩
  have hr1 := decodeR1MapWithVk_roundData doc short horder hvk hbytes
  refine bind_eq_ok.mpr ⟨_, bind_eq_ok.mpr ⟨_, hr1, rfl⟩, ?_⟩
  refine bind_eq_ok.mpr ⟨_, (blameErr_eq_ok _).mpr (Deal.part2_ok doc.toCore hp), ?_⟩
  exact bind_eq_ok.mpr ⟨_, hencode, rfl⟩

theorem frostPart3_ok (doc : lib.Documented) (short : lib.ShortPackages) (hmin : minSigners ≠ 0)
    (hp : p ∈ deal.ids) (horder : order.Perm (deal.others p)) {order₂ : List UInt16}
    (horder₂ : order₂.Perm (deal.others p)) (hvk : ∀ s ∈ deal.ids, (vk s).length = vkShareLen)
    (hbytes : ∀ s ∈ deal.ids, lib.serializeRound1 (deal.package s) = some (bytes s)) :
    frostPart3 lib ⟨deal.secret2 p, vk p⟩
        (roundData lib.toFrostCore deal.ident (fun s => bytes s ++ vk s) order)
        (roundData lib.toFrostCore deal.ident (fun s => deal.round2Bytes s p) order₂) =
      .ok (deal.key p, deal.publicKey p, BTreeMap.tabulate deal.ident vk (deal.others p)) := by
  refine bind_eq_ok.mpr ⟨_, decodeR1MapWithVk_roundData doc short horder hvk hbytes, ?_⟩
  refine bind_eq_ok.mpr ⟨_, Deal.decodeR2Map_roundData doc.toCore short horder₂, ?_⟩
  exact bind_eq_ok.mpr ⟨_, (blameErr_eq_ok _).mpr (Deal.part3_ok doc.toCore hmin hp), rfl⟩

theorem foldlM_addShare (hround : ∀ x, lib.deserializeScalar (lib.serializeScalar x) = some x)
    {ident : UInt16 → Identifier F} (share : UInt16 → F) (l : List UInt16) (sum : F) :
    (l.map fun s => (ident s, lib.serializeScalar (share s))).foldlM (addShare lib) sum =
      .ok (sum + (l.map share).sum) := by
  induction l generalizing sum with
  | nil => simp [pure, Except.pure]
  | cons s l ih =>
    have hstep : addShare lib sum (ident s, lib.serializeScalar (share s)) =
        .ok (sum + share s) :=
      bind_eq_ok.mpr ⟨_, okOr_eq_ok.mpr (hround (share s)), rfl⟩
    rw [List.map_cons, List.foldlM_cons, hstep, List.map_cons, List.sum_cons, ← add_assoc]
    exact ih _

theorem aggregateViewKeyShares_ok
    (hround : ∀ x, lib.deserializeScalar (lib.serializeScalar x) = some x)
    {ident : UInt16 → Identifier F} {ids : List UInt16} (hn : ids.Nodup) (hp : p ∈ ids)
    (hinj : BTreeMap.Injective ident (ids.erase p)) (share : UInt16 → F) :
    aggregateViewKeyShares lib (lib.serializeScalar (share p))
        (BTreeMap.tabulate ident (fun s => lib.serializeScalar (share s)) (ids.erase p)) =
      .ok (lib.serializeScalar (ids.map share).sum) := by
  obtain ⟨l, hperm, htoList⟩ : ∃ l : List UInt16, (ids.erase p).Perm l ∧
      (BTreeMap.tabulate ident (fun s => lib.serializeScalar (share s)) (ids.erase p)).toList =
        l.map fun s => (ident s, lib.serializeScalar (share s)) :=
    BTreeMap.exists_toList_tabulate hinj (hn.erase p)
  have htotal : (ids.map share).sum = share p + (l.map share).sum := by
    rw [((List.perm_cons_erase hp).map share).sum_eq, List.map_cons, List.sum_cons,
      (hperm.map share).sum_eq]
  refine bind_eq_ok.mpr ⟨_, okOr_eq_ok.mpr (hround (share p)), ?_⟩
  refine bind_eq_ok.mpr ⟨_, ?_, rfl⟩
  rw [htoList, foldlM_addShare hround, htotal]

end Fromt
