import FrostZm.Ceremony.Sign
import FrostZm.Ceremony.Writes
import FrostZm.Session.Recipients

/-!
# Whom the sessions write to

Packages of round 2 go to those who were heard in round 1, so no session writes to its own party.
-/

open FrostChannel

set_option linter.unusedSectionVars false

variable {F G Rng : Type} [Field F] [DecidableEq F] [Ord F] [Std.TransOrd F] [Std.LawfulEqOrd F]
  [AddCommGroup G] [Module F G]

namespace Ceremony

variable {core : FrostCore F G Rng} {n minSigners p q : UInt16} {idMap : IdMap}

theorem spares_sendRound2 {l : List (Identifier F × Round2Package F)}
    (h : ∀ e ∈ l, ∀ m, lookupU16 core idMap e.1 = .ok m → m ≠ p) :
    Spares p (sendRound2 core idMap l) := by
  induction l with
  | nil => exact spares_of_outs fun _ => rfl
  | cons e l ih =>
    obtain ⟨id, pkg⟩ := e
    unfold sendRound2
    apply Spares.lift_bind
    intro num hnum
    apply Spares.lift_bind
    intro data _
    refine (spares_sendTo (h _ List.mem_cons_self num hnum) data).bind fun _ _ _ _ _ => ?_
    exact ih fun e he => h e (List.mem_cons_of_mem _ he)

theorem lookup_eq_senderId (doc : core.Documented) (hmap : buildIdMap core n = .ok idMap) (hq : q ≠ 0)
    {m : UInt16} (h : lookupU16 core idMap (senderId q : Identifier F) = .ok m) : m = q := by
  have hmem := mem_upTo_of_lookup doc hmap (tryFrom_senderId doc hq) h
  rw [lookup_senderId doc hmap hmem] at h
  exact (Except.ok.inj h).symm

theorem spares_runRounds (doc : core.Documented) (hmap : buildIdMap core n = .ok idMap) (hp : p ≠ 0)
    (secret1 : Round1SecretPackage F G) (r1Bytes : Bytes) :
    Spares p (runRounds core n idMap secret1 r1Bytes) := by
  unfold runRounds
  refine (spares_broadcast hp r1Bytes).bind fun _ _ _ _ _ => ?_
  refine (spares_recvEach _ _ _).bind fun log r1Map rest hlog hrecv => ?_
  obtain ⟨l, log', rfl, -, -, hread, rfl⟩ := recvEach_store_ok hrecv
  unfold finishRounds
  apply Spares.lift_bind
  rintro ⟨secret2, sent⟩ hpart2
  refine (spares_sendRound2 fun e he m hm => ?_).bind fun _ _ _ _ _ => ?_
  · obtain ⟨-, rfl⟩ := doc.part2_eq _ _ _ _ ((blameErr_eq_ok core).mp hpart2)
    have hkey : e.1 ∈ (stored core.deserializeRound1 l : BTreeMap (Identifier F) _) := by
      have hget := Std.ExtTreeMap.mem_toList_iff_getElem?_eq_some.mp he
      have hmem := Std.ExtTreeMap.mem_iff_isSome_getElem?.mpr (Option.isSome_of_eq_some hget)
      rwa [Std.ExtTreeMap.mem_map] at hmem
    obtain ⟨x, hx, hid⟩ := mem_stored.mp hkey
    rw [← hid] at hm
    rw [lookup_eq_senderId doc hmap (hread x hx).1 hm]
    exact hlog x (List.mem_append_left log' hx)
  · exact (spares_recvEach _ _ _).bind fun _ _ _ _ _ => spares_lift _

theorem spares_dkgRun (doc : core.Documented) (hp : p ≠ 0) (rng : Rng) :
    Spares p (dkgRun core p n minSigners rng) := by
  unfold dkgRun
  apply Spares.lift_bind
  intro idMap hmap
  apply Spares.lift_bind
  intro ident _
  apply Spares.lift_bind
  rintro ⟨secret1, package⟩ _
  apply Spares.lift_bind
  intro r1Bytes _
  exact spares_runRounds doc hmap hp secret1 r1Bytes

/-! ## Frames -/

theorem framed_sendRound2 (l : List (Identifier F × Round2Package F)) :
    Framed (sendRound2 core idMap l) := by
  induction l with
  | nil => exact framed_of_outs fun _ => rfl
  | cons e l ih =>
    obtain ⟨id, pkg⟩ := e
    unfold sendRound2
    refine (framed_lift _).bind fun num => ?_
    refine (framed_lift _).bind fun data => ?_
    exact (framed_sendTo num data).bind fun _ => ih

theorem framed_dkgRun (rng : Rng) : Framed (dkgRun core p n minSigners rng) := by
  unfold dkgRun runRounds finishRounds
  refine (framed_lift _).bind fun idMap => ?_
  refine (framed_lift _).bind fun ident => ?_
  refine (framed_lift _).bind fun part1 => ?_
  refine (framed_lift _).bind fun r1Bytes => ?_
  refine (framed_sendTo 0 r1Bytes).bind fun _ => ?_
  refine (framed_recvEach _ _ _).bind fun r1Map => ?_
  refine (framed_lift _).bind fun part2 => ?_
  refine (framed_sendRound2 _).bind fun _ => ?_
  exact (framed_recvEach _ _ _).bind fun _ => framed_lift _

section Signing

variable {frost : FrostSigning F G Rng}

theorem spares_exchangeCommitments (hp : p ≠ 0) (ident : Identifier F)
    (commitments : SigningCommitments G) (message : Bytes) (numSigners : ℕ) :
    Spares p (exchangeCommitments frost ident commitments message numSigners) := by
  unfold exchangeCommitments
  apply Spares.lift_bind
  intro commitBytes _
  refine (spares_broadcast hp commitBytes).bind fun _ _ _ _ _ => ?_
  exact (spares_recvEach _ _ _).bind fun _ _ _ _ _ => spares_of_outs fun _ => rfl

theorem spares_exchangeShares (hp : p ≠ 0) (ident : Identifier F) (numSigners : ℕ)
    (share : SignatureShare F)
    (aggregate : BTreeMap (Identifier F) (SignatureShare F) → Except (FrostError F) (Signature F G)) :
    Spares p (exchangeShares frost ident numSigners share aggregate) := by
  unfold exchangeShares
  refine (spares_broadcast hp _).bind fun _ _ _ _ _ => ?_
  refine (spares_recvEach _ _ _).bind fun _ _ _ _ _ => ?_
  apply Spares.lift_bind
  intro signature _
  exact spares_lift _

theorem spares_signRun (hp : p ≠ 0) (key : KeyPackage F G) (pub : PublicKeyPackage F G)
    (message : Bytes) (numSigners : ℕ) (rng : Rng) :
    Spares p (signRun frost key pub message numSigners rng) := by
  unfold signRun
  refine (spares_exchangeCommitments hp _ _ message numSigners).bind fun _ _ _ _ _ => ?_
  apply Spares.lift_bind
  intro share _
  exact spares_exchangeShares hp _ numSigners share _

theorem framed_signRun (key : KeyPackage F G) (pub : PublicKeyPackage F G) (message : Bytes)
    (numSigners : ℕ) (rng : Rng) : Framed (signRun frost key pub message numSigners rng) := by
  unfold signRun
  refine Framed.bind ?_ fun signingPackage => ?_
  · unfold exchangeCommitments
    refine (framed_lift _).bind fun commitBytes => ?_
    refine (framed_sendTo 0 commitBytes).bind fun _ => ?_
    exact (framed_recvEach _ _ _).bind fun _ => framed_of_outs fun _ => rfl
  · refine (framed_lift _).bind fun share => ?_
    unfold exchangeShares
    refine (framed_sendTo 0 _).bind fun _ => ?_
    refine (framed_recvEach _ _ _).bind fun _ => ?_
    exact (framed_lift _).bind fun _ => framed_lift _

end Signing

end Ceremony
