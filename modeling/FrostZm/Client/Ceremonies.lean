import FrostZm.Ceremony.Completion
import FrostZm.Ceremony.Recipients
import FrostZm.Client.Refinement

/-!
# Ceremonies run by the loops

Whether honest parties come to the end of a ceremony over the relay depends on the order in which
their loops feed the frames, and on nothing else. Two parties always do.
-/

open RunSession hiding Setting Net Action run step init post Inv inv_init inv_step inv_run
open Relay Phases Runs

namespace Loops

variable {prims : Primitives} {α : Type} {w : RunSession.Setting α} {body : UInt16 → Ceremony α}
  {cnet cnet' : RunSession.Net α} {net : Net α} {e : PartyEntry}

/-! ## Loops that wait or have returned -/

/-- The session was seen to be finished, and the loop goes to its end. -/
def Final : Pc → Bool
  | .drain final => final
  | .send final _ _ => final
  | .stopped error => error.isNone
  | _ => false

structure Tidy (q : Party α) : Prop where
  empty : q.pc = .poll ∨ q.pc = .stopped none → q.session.outbox = []
  final : Final q.pc → q.session.outcome.isSome
  finished : q.session.outcome.isSome → q.fed = [] ∨ Finishing q.pc

theorem tidy_start (w : RunSession.Setting α) (p : GoString) : Tidy ((RunSession.init w).party p) where
  empty h := by simp [RunSession.init] at h
  final h := by simp [RunSession.init, Final] at h
  finished _ := .inl rfl

theorem feed_fst {ceremony : Ceremony α} {fed taken : List Bytes} {s : Protocol α}
    (h : s.Tracks ceremony fed taken) (msg : Bytes) :
    (s.feed msg).1 = (s.feed msg).2.outcome.isSome := by
  unfold Protocol.feed
  split
  · next hsome => simp [hsome]
  · next hnone =>
    have hout : s.outcome = none := by simpa using hnone
    obtain ⟨-, task, htask, -⟩ := h.pending hout
    simp [Protocol.advance, htask]

theorem outcome_takeMsg {s s' : Protocol α} {msg : Bytes} (h : s.takeMsg = (some msg, s')) :
    s'.outcome = s.outcome := by
  unfold Protocol.takeMsg at h
  split at h
  · simp at h
  · rw [← (Prod.mk.inj h).2]

theorem Tidy.step {p : GoString} {myId : UInt16} {draw : Draw} {log : List Message} {q q' : Party α}
    {posted : Option (GoString × Message)} (h : Tidy q) (hinv : PartyInv prims w p log q)
    (hturn : Turned prims w p myId draw q q' posted) : Tidy q' := by
  obtain ⟨hempty, hfinal, hfinished⟩ := h
  cases hturn with
  | start hpc =>
    rw [hpc] at hfinished
    exact ⟨by simp, by simp [Final], fun hsome => by simpa [Finishing] using hfinished hsome⟩
  | drained final hpc hbox =>
    rw [hpc] at hfinal hfinished
    cases final with
    | true => exact ⟨fun _ => hbox, fun _ => hfinal rfl, fun _ => .inr rfl⟩
    | false =>
      exact ⟨fun _ => hbox, by simp [Final], fun hsome => by simpa [Finishing] using hfinished hsome⟩
  | take final msg hpc session hmsg =>
    rw [hpc] at hfinal hfinished
    rw [← outcome_takeMsg hmsg] at hfinal hfinished
    exact ⟨by simp, hfinal, hfinished⟩
  | sent final msg i hpc hall =>
    rw [hpc] at hfinal hfinished
    exact ⟨by simp, hfinal, hfinished⟩
  | send final msg i hpc name hname =>
    rw [hpc] at hfinal hfinished
    exact ⟨by simp, hfinal, hfinished⟩
  | looked hpc hrest =>
    rw [hpc] at hfinished
    exact ⟨by simp, by simp [Final], fun hsome => by simpa [Finishing] using hfinished hsome⟩
  | skip hpc reader hlook =>
    refine ⟨?_, ?_, hfinished⟩
    · simp [hpc]
    · simp [hpc, Final]
  | feed hpc m reader hlook client hkey hcounter hseen =>
    have hfst := feed_fst hinv.tracks (frameOf prims w m)
    cases hdone : (q.session.feed (frameOf prims w m)).1 with
    | true =>
      rw [hdone] at hfst
      exact ⟨by simp, fun _ => hfst.symm, fun _ => .inr rfl⟩
    | false =>
      rw [hdone] at hfst
      refine ⟨by simp, by simp [Final], fun hsome => ?_⟩
      exact absurd (hfst.trans hsome) Bool.false_ne_true

theorem tidy_run (doc : prims.Documented) {acts : List RunSession.Action}
    (hg : Guarded (RunSession.step prims w) (Deliverable w) (RunSession.init w) acts)
    (hr : RunSession.run prims w acts = some cnet) (p : GoString) : Tidy (cnet.party p) := by
  have h : RunSession.Inv prims w cnet ∧ ∀ p, Tidy (cnet.party p) := by
    refine inv_of_guarded (fun cnet => RunSession.Inv prims w cnet ∧ ∀ p, Tidy (cnet.party p))
      ⟨RunSession.inv_init prims w, tidy_start w⟩ ?_ hg hr
    rintro u a v ⟨hi, htidy⟩ hd hs
    refine ⟨RunSession.inv_step doc hi hd hs, ?_⟩
    -- the loop of one party makes a step, the others stay
    have hone : ∀ (p : GoString) (q : Party α) (log : GoString → List Message), Tidy q →
        ∀ x, Tidy ((RunSession.Net.party { u.setParty p q with log }) x) := by
      intro p q log hq x
      by_cases hx : x = p
      · simpa [RunSession.Net.setParty, hx] using hq
      · simpa [RunSession.Net.setParty, hx] using htidy x
    cases a with
    | turn p draw =>
      obtain ⟨myId, q, posted, hid, hturn, rfl⟩ := step_turn hs
      have hturned : Turned prims w p myId draw (u.party p) q posted :=
        (hi.party p).turned doc (hi.posted p) hid
          (fun final msg i hpc name hname => (hd myId hid final msg i hpc name hname).1) hturn
      exact hone p q _ ((htidy p).step (hi.party p) hturned)
    | getMessages p whole k =>
      obtain ⟨reader, -, hpc, rfl⟩ := step_getMessages hs
      have hfinished := (htidy p).finished
      rw [hpc] at hfinished
      exact hone p _ _ ⟨by simp, by simp [Final], fun hsome => by simpa [Finishing] using hfinished hsome⟩
    | cancel p =>
      obtain ⟨-, rfl⟩ := step_cancel hs
      exact hone p _ _ ⟨by simp, by simp [Final], fun _ => .inr rfl⟩
  exact h.2 p

/-! ## Loops at rest -/

/-- Every loop has returned, or waits for messages that are not there. -/
def AtRest (w : RunSession.Setting α) (cnet : RunSession.Net α) : Prop :=
  ∀ e ∈ w.setup.parties, (cnet.party e.name).pc = .stopped none ∨
    (cnet.party e.name).pc = .poll ∧
      (cnet.party e.name).reader.returned = (cnet.log e.name).length

theorem entry_of_mem_network {p : UInt16} (h : p ∈ (network w.setup).ids) :
    ∃ e ∈ w.setup.parties, e.frostId = p :=
  List.mem_map.mp (List.mem_toFinset.mp h)

/-- When the loops are at rest, nothing is on its way between the sessions. -/
theorem Mirrors.quiet (h : Mirrors prims w body cnet net) (hb : Bodies w body)
    (htidy : ∀ p, Tidy (cnet.party p)) (hrest : AtRest w cnet) :
    Net.Quiet (network w.setup) net := by
  obtain ⟨taken, hinv⟩ := h.netInv
  refine ⟨fun p hp => ?_, fun p hp hopen s => ?_⟩
  · obtain ⟨e, he, rfl⟩ := entry_of_mem_network hp
    rw [h.party e he]
    exact (htidy e.name).empty ((hrest e he).symm.imp And.left id)
  · obtain ⟨r, hr, rfl⟩ := entry_of_mem_network hp
    by_contra hne
    obtain ⟨m, hm⟩ := List.exists_mem_of_ne_nil _ hne
    obtain ⟨hs, -, hother⟩ := hinv.route s r.frostId m (List.mem_append_right _ hm)
    obtain ⟨e, he, rfl⟩ := entry_of_mem_network hs
    have hrne : r ≠ e := fun heq => hother (heq ▸ rfl)
    -- the recipient waits, so it has looked at everything that was posted for it
    have hlog : (cnet.party r.name).reader.taken = cnet.log r.name := by
      rcases hrest r hr with hstop | ⟨hpoll, hreturned⟩
      · have hsome := (htidy r.name).final (by rw [hstop]; rfl)
        rw [← h.party r hr, hopen] at hsome
        exact absurd hsome Bool.false_ne_true
      · have hempty : (cnet.party r.name).reader.rest = [] := by
          by_contra hrest'
          have hlooking := (h.inv.party r.name).looking hrest'
          simp [hpoll, Finishing] at hlooking
        rw [(h.inv.party r.name).reads.taken_eq hempty, hreturned, List.take_length]
    -- the sender has sent all of its frames
    have hsent : sentTo w e.frostId (cnet.party e.name) r.name =
        copiesTo w e.frostId r.name (cnet.party e.name).taken := by
      unfold sentTo
      rcases hrest e he with hstop | ⟨hpoll, -⟩
      · rw [hstop]
      · rw [hpoll]
    have hfifo := hinv.fifo e.frostId r.frostId (Finset.notMem_empty _)
    rw [h.taken_eq hb hinv he, ← copiesTo_eq he hr hrne (h.length_taken e.name), h.sentBy_fed he hr, hlog,
      h.inv.sent e.name e.frostId (frostIdByName_entry he) r.name, hsent,
      List.append_right_eq_self] at hfifo
    exact hne hfifo

/-! ## The order of the frames -/

/-- A frame that a loop feeds is one that its session waits for. -/
def InRound (w : RunSession.Setting α) (plan : UInt16 → List (Finset UInt16))
    (cnet : RunSession.Net α) : RunSession.Action → Prop
  | .turn p _ => ∀ myId, w.setup.frostIdByName p = some myId → (cnet.party p).pc = .inbox →
    ∀ m reader, (cnet.party p).reader.look seenKey = some (some m, reader) →
      ∀ sid, nameToFrostID w.allParties m.fromParty = some sid →
        Awaits (plan myId) ((cnet.party p).fed.map fun frame => (unframe frame).1) sid
  | _ => True

section InRound

variable {plan : UInt16 → List (Finset UInt16)} {a : RunSession.Action}

theorem Mirrors.inRound_iff (h : Mirrors prims w body cnet net) {b : Net.Action}
    (hact : relayed w cnet a = some b) : InRound w plan cnet a ↔ Net.InPhase plan net b := by
  cases a with
  | getMessages p whole k => simp [relayed] at hact
  | cancel p => simp [relayed] at hact
  | turn p draw =>
    obtain ⟨myId, hid, hact⟩ := Option.bind_eq_some_iff.mp hact
    have hfed : (net.fed myId).map Prod.fst =
        (cnet.party p).fed.map fun frame => (unframe frame).1 := by
      have hframes : net.frames myId = (cnet.party p).fed := h.frames _ (entry_of_frostIdByName hid)
      rw [← hframes, Net.frames, List.map_map]
      apply List.map_congr_left
      intro m _
      rw [Function.comp_apply, FrostChannel.unframe_frame]
    split at hact
    · next final hpc =>
      split at hact
      · simp at hact
      · obtain rfl := Option.some.inj hact
        simp [InRound, Net.InPhase, hpc]
    · next hpc =>
      split at hact
      · next m reader hlook =>
        obtain ⟨sid, hname, rfl⟩ := Option.map_eq_some_iff.mp hact
        simp [InRound, Net.InPhase, hid, hpc, hlook, hname, hfed]
      · simp at hact
    · simp at hact

theorem inRound_of_none (hact : relayed w cnet a = none) : InRound w plan cnet a := by
  cases a with
  | getMessages p whole k => trivial
  | cancel p => trivial
  | turn p draw =>
    intro myId hid hpc m reader hlook sid hname
    simp [relayed, hid, hpc, hlook, hname] at hact

end InRound

/-! ## Ceremonies that follow a script -/

section Scripted

variable {acts : List RunSession.Action} {phases : UInt16 → List (Phase UInt16 Bytes Bytes)}
  {fin : UInt16 → List Bytes} {result : UInt16 → α} {time : UInt16 → ℕ → ℕ}

theorem guarded_inRound_iff (doc : prims.Documented) (hb : Bodies w body)
    (hg : Guarded (RunSession.step prims w) (Deliverable w) (RunSession.init w) acts)
    (hr : RunSession.run prims w acts = some cnet) (plan : UInt16 → List (Finset UInt16)) :
    Guarded (RunSession.step prims w) (InRound w plan) (RunSession.init w) acts ↔
      Net.KeepsPhase (network w.setup) body plan
        (trace (RunSession.step prims w) (relayed w) (RunSession.init w) acts) :=
  (simulates doc hb).guarded_iff (Mirrors.init prims hb) hg hr
    (fun _ _ _ _ hrel hact => hrel.inRound_iff hact) fun _ _ hact => inRound_of_none hact

/-- No session fails on the way. -/
def Faultless (prims : Primitives) (w : RunSession.Setting α) (acts : List RunSession.Action) : Prop :=
  ∀ pre, pre <+: acts → ∀ u, RunSession.run prims w pre = some u →
    ∀ e ∈ w.setup.parties, ∀ err, (u.party e.name).session.outcome ≠ some (.error err)

theorem faultless_iff (doc : prims.Documented) (hb : Bodies w body)
    (hs : Net.Scripted (network w.setup) body phases fin result)
    (hg : Guarded (RunSession.step prims w) (Deliverable w) (RunSession.init w) acts)
    (hr : RunSession.run prims w acts = some cnet) :
    Faultless prims w acts ↔
      Guarded (RunSession.step prims w) (InRound w (Net.planOf phases)) (RunSession.init w) acts := by
  have hinit := Mirrors.init prims hb
  obtain ⟨net, hnet, -⟩ := (simulates doc hb).run hinit hg hr
  rw [guarded_inRound_iff doc hb hg hr, ← hs.noError_iff hnet]
  apply (simulates doc hb).forall_states_iff hinit hg hr
  intro u x hrel
  constructor
  · intro h p hp err
    obtain ⟨e, he, rfl⟩ := entry_of_mem_network hp
    rw [hrel.party e he]
    exact h e he err
  · intro h e he err
    rw [← hrel.party e he]
    exact h e.frostId (mem_network he) err

/-- The loops have returned, and their sessions have these results. -/
def Completed (w : RunSession.Setting α) (result : UInt16 → α) (cnet : RunSession.Net α) : Prop :=
  ∀ e ∈ w.setup.parties, (cnet.party e.name).pc = .stopped none ∧
    (cnet.party e.name).session.outcome = some (.ok (result e.frostId))

section Rest

variable (doc : prims.Documented) (hb : Bodies w body)
  (hs : Net.Scripted (network w.setup) body phases fin result)
  (hc : Net.Clocked (network w.setup) phases fin time)
  (hg : Guarded (RunSession.step prims w) (Deliverable w) (RunSession.init w) acts)
  (hr : RunSession.run prims w acts = some cnet) (hrest : AtRest w cnet)
include doc hb hs hc hg hr hrest

theorem inRound_of_ended
    (h : ∀ e ∈ w.setup.parties, ∃ a, (cnet.party e.name).session.outcome = some (.ok a)) :
    Guarded (RunSession.step prims w) (InRound w (Net.planOf phases)) (RunSession.init w) acts := by
  obtain ⟨net, hnet, hrel⟩ := (simulates doc hb).run (Mirrors.init prims hb) hg hr
  have hquiet := hrel.quiet hb (tidy_run doc hg hr) hrest
  rw [guarded_inRound_iff doc hb hg hr, ← hs.ended_iff hc hnet hquiet]
  intro p hp
  obtain ⟨e, he, rfl⟩ := entry_of_mem_network hp
  rw [hrel.party e he]
  exact h e he

theorem completed_of_inRound (hreads : ∀ p ∈ (network w.setup).ids, 0 < total (phases p))
    (hkeep : Guarded (RunSession.step prims w) (InRound w (Net.planOf phases)) (RunSession.init w)
      acts) : Completed w result cnet := by
  obtain ⟨net, hnet, hrel⟩ := (simulates doc hb).run (Mirrors.init prims hb) hg hr
  have htidy := tidy_run doc hg hr
  have hquiet := hrel.quiet hb htidy hrest
  rw [guarded_inRound_iff doc hb hg hr] at hkeep
  intro e he
  have hout := hs.planned.finished hc hnet hkeep hquiet e.frostId (mem_network he)
  have hloop : (cnet.party e.name).session.outcome = some (.ok (result e.frostId)) := by
    rw [← hrel.party e he]
    exact hout
  refine ⟨?_, hloop⟩
  -- a session that reads something has been fed, so its loop knows that it has finished
  have hfed : (cnet.party e.name).fed ≠ [] := by
    intro hnil
    have hframes := hrel.frames e he
    rw [hnil, Net.frames, List.map_eq_nil_iff] at hframes
    have hfit : Fits (phases e.frostId) [] := fits_nil (phases e.frostId)
    have hwait := (hs.planned.reads _ (mem_network he)).eval_of_lt hfit
      (hreads _ (mem_network he))
    rw [Net.outcome_eq hnet, Net.frames, hframes, hwait] at hout
    simp at hout
  have hfinishing := ((htidy e.name).finished (by rw [hloop]; rfl)).resolve_left hfed
  rcases hrest e he with hstop | ⟨hpoll, -⟩
  · exact hstop
  · simp [hpoll, Finishing] at hfinishing

end Rest

end Scripted

end Loops

/-! ## Key generation and signing -/

section Sessions

open Ceremony Polynomial

set_option linter.unusedSectionVars false

variable {F G Rng : Type} [Field F] [DecidableEq F] [Ord F] [Std.TransOrd F] [Std.LawfulEqOrd F]
  [AddCommGroup G] [Module F G] {prims : Primitives} {acts : List RunSession.Action}

namespace Loops

theorem ids_eq_upTo {α : Type} {w : RunSession.Setting α} {n : UInt16}
    (hlen : w.setup.parties.length = n.toNat) : w.setup.ids = upTo n := by
  unfold SetupMsg.ids upTo
  rw [← hlen]
  apply List.ext_getElem
  · simp
  · intro i hi hi'
    rw [List.length_map] at hi
    simp [w.numbered.getElem hi, buildPartyInfo]

section Keys

variable {core : FrostCore F G Rng} {n minSigners : UInt16} {rng : UInt16 → Rng}
  {w : RunSession.Setting (KeyPackage F G × PublicKeyPackage F G)}
  {cnet : RunSession.Net (KeyPackage F G × PublicKeyPackage F G)}

/-- All loops have returned, and their sessions hold shares of one key. -/
structure Generated (w : RunSession.Setting (KeyPackage F G × PublicKeyPackage F G))
    (minSigners : UInt16) (cnet : RunSession.Net (KeyPackage F G × PublicKeyPackage F G)) : Prop where
  returned : ∀ e ∈ w.setup.parties, (cnet.party e.name).pc = .stopped none
  agree : ∃ (vk : G) (f : F[X]), f.degree < minSigners.toNat ∧ ∀ e ∈ w.setup.parties,
    ∃ key pub, (cnet.party e.name).session.outcome = some (.ok (key, pub)) ∧
      Identifier.tryFrom e.frostId = some key.identifier ∧ key.verifyingKey = vk ∧
      pub.verifyingKey = vk ∧ key.signingShare = f.eval key.identifier.toScalar

theorem bodies_dkgRun (doc : core.Documented) (hlen : w.setup.parties.length = n.toNat)
    (hbody : ∀ e ∈ w.setup.parties, w.body e.name = dkgRun core e.frostId n minSigners (rng e.frostId)) :
    Bodies w fun p => dkgRun core p n minSigners (rng p) where
  body_eq := hbody
  spares e he := by
    have hmem : e.frostId ∈ upTo n := by
      rw [← ids_eq_upTo hlen]
      exact List.mem_map_of_mem he
    exact spares_dkgRun doc (mem_upTo.mp hmem).1 (rng e.frostId)

theorem total_rounds {deal : Deal core n minSigners} {bytes : UInt16 → Bytes} {idMap : IdMap}
    (hn : 2 ≤ n) {p : UInt16} (hp : p ∈ deal.ids) : 0 < total (deal.rounds bytes idMap p) := by
  have hcard := Deal.card_others hp
  have hpos : 1 ≤ (n - 1).toNat := by
    have hle : (1 : UInt16) ≤ n := UInt16.le_trans (by decide) hn
    have hnat : (2 : UInt16).toNat ≤ n.toNat := UInt16.le_iff_toNat_le.mp hn
    rw [UInt16.toNat_sub_of_le _ _ hle]
    exact Nat.le_sub_of_add_le hnat
  unfold Deal.rounds
  rw [total_cons]
  simp only [hcard]
  omega

theorem single_twoRounds {p : UInt16} (hp : p ∈ upTo 2) :
    ∃ s, ∀ senders ∈ twoRounds 2 p, senders = {s} := by
  obtain ⟨s, hs⟩ := Finset.card_eq_one.mp (card_erase_upTo hp)
  refine ⟨s, fun senders hsenders => ?_⟩
  simp only [twoRounds, List.mem_cons, List.not_mem_nil, or_false, or_self] at hsenders
  rw [hsenders, hs]

/-- Key generation by the loops of honest parties: no session fails on the way exactly if each frame
was fed in the round that its session was reading, and then, once the loops are at rest, the
sessions hold shares of one key. Two parties always get there. -/
theorem keygen_over_relay (docp : prims.Documented) (doc : core.Documented) (h2 : 2 ≤ minSigners)
    (hle : minSigners ≤ n) (hlen : w.setup.parties.length = n.toNat)
    (hbody : ∀ e ∈ w.setup.parties, w.body e.name = dkgRun core e.frostId n minSigners (rng e.frostId))
    (hg : Guarded (RunSession.step prims w) (Deliverable w) (RunSession.init w) acts)
    (hr : RunSession.run prims w acts = some cnet) (hrest : AtRest w cnet) :
    (Faultless prims w acts ↔
      Guarded (RunSession.step prims w) (InRound w (twoRounds n)) (RunSession.init w) acts) ∧
    (Generated w minSigners cnet ↔ Faultless prims w acts) ∧
    (n = 2 → Generated w minSigners cnet) := by
  have hb := bodies_dkgRun doc hlen hbody
  obtain ⟨deal, bytes, idMap, hids, hlookup, hfollows⟩ := dkgRun_deal doc h2 hle rng
  have hnetwork : network w.setup = ⟨deal.ids.toFinset, ∅⟩ := by
    rw [network, ids_eq_upTo hlen, hids]
  have hs : Net.Scripted (network w.setup) (fun p => dkgRun core p n minSigners (rng p))
      (deal.rounds bytes idMap) (fun _ => []) fun p => (deal.key p, deal.publicKey p) := by
    rw [hnetwork]
    exact Deal.scripted doc hlookup hfollows
  have hc : Net.Clocked (network w.setup) (deal.rounds bytes idMap) (fun _ => []) fun _ k => k := by
    rw [hnetwork]
    exact Deal.clocked doc hlookup
  have hplan : Net.planOf (deal.rounds bytes idMap) = twoRounds n := Deal.planOf_rounds hids
  have hmem : ∀ e ∈ w.setup.parties, e.frostId ∈ deal.ids := by
    intro e he
    rw [hids, ← ids_eq_upTo hlen]
    exact List.mem_map_of_mem he
  have hreads : ∀ p ∈ (network w.setup).ids, 0 < total (deal.rounds bytes idMap p) := by
    rw [hnetwork]
    intro p hp
    exact total_rounds (UInt16.le_trans h2 hle) (List.mem_toFinset.mp hp)
  have hfaultless := faultless_iff docp hb hs hg hr
  have hgenerated : Faultless prims w acts → Generated w minSigners cnet := by
    intro hkeep
    rw [hfaultless] at hkeep
    have hdone := completed_of_inRound docp hb hs hc hg hr hrest hreads hkeep
    refine ⟨fun e he => (hdone e he).1, deal.groupSecret • core.generator, deal.groupPoly,
      Deal.groupPoly_degree_lt, fun e he => ?_⟩
    have hp := hmem e he
    exact ⟨_, _, (hdone e he).2, deal.tryFrom _ hp, Deal.key_verifyingKey doc hp,
      Deal.publicKey_verifyingKey doc hp, Deal.key_signingShare doc hp⟩
  refine ⟨hplan ▸ hfaultless, ⟨fun h => ?_, hgenerated⟩, ?_⟩
  · rw [hfaultless]
    apply inRound_of_ended docp hb hs hc hg hr hrest
    intro e he
    obtain ⟨vk, f, -, hagree⟩ := h.agree
    obtain ⟨key, pub, hout, -⟩ := hagree e he
    exact ⟨_, hout⟩
  · rintro rfl
    apply hgenerated
    obtain ⟨net, hnet, -⟩ := (simulates docp hb).run (Mirrors.init prims hb) hg hr
    rw [hfaultless, guarded_inRound_iff docp hb hg hr]
    refine hs.planned.keepsPhase_of_single (fun p hp => ?_) hnet
    rw [hplan]
    rw [hnetwork, List.mem_toFinset, hids] at hp
    exact single_twoRounds hp

end Keys

section Signing

variable {frost : FrostSigning F G Rng} {signers : Signers frost} {message : Bytes}
  {rng : UInt16 → Rng} {w : RunSession.Setting Bytes} {cnet : RunSession.Net Bytes}

/-- All loops have returned, and their sessions hold one signature of the message. -/
structure SignedOver (frost : FrostSigning F G Rng) (w : RunSession.Setting Bytes) (vk : G)
    (message : Bytes) (cnet : RunSession.Net Bytes) : Prop where
  returned : ∀ e ∈ w.setup.parties, (cnet.party e.name).pc = .stopped none
  agree : ∃ σ b, frost.deserializeSignature b = some σ ∧ frost.verify vk message σ = true ∧
    ∀ e ∈ w.setup.parties, (cnet.party e.name).session.outcome = some (.ok b)

theorem bodies_signRun (hids : w.setup.ids.toFinset = signers.ids.toFinset)
    (hbody : ∀ e ∈ w.setup.parties, w.body e.name = signers.signBody rng message e.frostId) :
    Bodies w (signers.signBody rng message) where
  body_eq := hbody
  spares e he := by
    have hmem : e.frostId ∈ signers.ids := by
      rw [← List.mem_toFinset, ← hids, List.mem_toFinset]
      exact List.mem_map_of_mem he
    exact spares_signRun (ne_zero_of_tryFrom (signers.tryFrom _ hmem)) _ _ message _ _

/-- Signing by the loops of honest signers: no session fails on the way exactly if each frame was
fed in the round that its session was reading, and then, once the loops are at rest, the sessions
hold one valid signature. Two signers always get there. -/
theorem signing_over_relay (docp : prims.Documented) (doc : frost.Documented)
    (hids : w.setup.ids.toFinset = signers.ids.toFinset) (htwo : 2 ≤ signers.ids.length)
    (hbody : ∀ e ∈ w.setup.parties, w.body e.name = signers.signBody rng message e.frostId)
    (hg : Guarded (RunSession.step prims w) (Deliverable w) (RunSession.init w) acts)
    (hr : RunSession.run prims w acts = some cnet) (hrest : AtRest w cnet) :
    (Faultless prims w acts ↔
      Guarded (RunSession.step prims w) (InRound w signers.signPlan) (RunSession.init w) acts) ∧
    (SignedOver frost w signers.publicKey.verifyingKey message cnet ↔ Faultless prims w acts) ∧
    (signers.ids.length = 2 → SignedOver frost w signers.publicKey.verifyingKey message cnet) := by
  have hb := bodies_signRun hids hbody
  have hnetwork : network w.setup = signers.setting := by
    rw [network, hids, Signers.setting]
  have hs : Net.Scripted (network w.setup) (signers.signBody rng message)
      (signers.signPhases rng message) (fun _ => [])
      fun _ => signers.sigBytes (signers.drawn rng) message := by
    rw [hnetwork]
    exact Signers.scripted_sign doc
  have hc : Net.Clocked (network w.setup) (signers.signPhases rng message) (fun _ => [])
      fun _ k => k := by
    rw [hnetwork]
    exact Signers.clocked_sign
  have hplan : Net.planOf (signers.signPhases rng message) = signers.signPlan :=
    Signers.planOf_signPhases
  have hcard : ∀ p ∈ (network w.setup).ids, (signers.others p).card = signers.ids.length - 1 := by
    rw [hnetwork]
    intro p hp
    exact Signers.card_others (List.mem_toFinset.mp hp)
  have hreads : ∀ p ∈ (network w.setup).ids, 0 < total (signers.signPhases rng message p) := by
    intro p hp
    have hothers := hcard p hp
    unfold Signers.signPhases Signers.commitPhase
    rw [total_cons]
    simp only [hothers]
    omega
  have hfaultless := faultless_iff docp hb hs hg hr
  have hsigned : Faultless prims w acts →
      SignedOver frost w signers.publicKey.verifyingKey message cnet := by
    intro hkeep
    rw [hfaultless] at hkeep
    have hdone := completed_of_inRound docp hb hs hc hg hr hrest hreads hkeep
    have henc := Signers.encodable doc signers rng message
    exact ⟨fun e he => (hdone e he).1, _, _,
      doc.signature_roundtrip _ _ (Signers.serialize_signature doc signers henc),
      Signers.verify_signature doc, fun e he => (hdone e he).2⟩
  refine ⟨hplan ▸ hfaultless, ⟨fun h => ?_, hsigned⟩, ?_⟩
  · rw [hfaultless]
    apply inRound_of_ended docp hb hs hc hg hr hrest
    intro e he
    obtain ⟨σ, b, -, -, hout⟩ := h.agree
    exact ⟨b, hout e he⟩
  · intro hpair
    apply hsigned
    obtain ⟨net, hnet, -⟩ := (simulates docp hb).run (Mirrors.init prims hb) hg hr
    rw [hfaultless, guarded_inRound_iff docp hb hg hr]
    refine hs.planned.keepsPhase_of_single (fun p hp => ?_) hnet
    obtain ⟨s, hsingle⟩ := Finset.card_eq_one.mp ((hcard p hp).trans (by rw [hpair]))
    refine ⟨s, fun senders hsenders => ?_⟩
    rw [hplan] at hsenders
    simp only [Signers.signPlan, List.mem_cons, List.not_mem_nil, or_false, or_self] at hsenders
    rw [hsenders, hsingle]

end Signing

/-! ## Runs to the end -/

theorem framed_plain {α : Type} {parties : List GoString} {body : UInt16 → Ceremony α}
    (hframed : ∀ p, Framed (body p)) (p : GoString) :
    Framed (body ((nameToFrostID parties p).getD 0)) := hframed _

theorem numbered_plain (parties : List GoString) :
    buildPartyInfo parties <+: buildPartyInfo parties := List.prefix_rfl

def plainClient (_ : GoString) : RelayClient := { encryptionKey := none }

theorem sameKey_plain (p : GoString) : (plainClient p).encryptionKey = none := rfl

/-- Parties with these names and clients without a key. -/
def plainSetting {α : Type} (parties : List GoString) (hdistinct : parties.Nodup)
    (hsmall : (buildPartyInfo parties).length < 2 ^ 16) (body : UInt16 → Ceremony α)
    (hframed : ∀ p, Framed (body p)) : RunSession.Setting α where
  sessionID := ascii "s"
  allParties := parties
  distinct := hdistinct
  setup := ⟨3, 2, buildPartyInfo parties⟩
  numbered := numbered_plain parties
  small := hsmall
  body p := body ((nameToFrostID parties p).getD 0)
  framed := framed_plain hframed
  client := plainClient
  key := none
  sameKey := sameKey_plain

section Plain

variable {α : Type} {parties : List GoString} {hdistinct : parties.Nodup}
  {hsmall : (buildPartyInfo parties).length < 2 ^ 16} {body : UInt16 → Ceremony α}
  {hframed : ∀ p, Framed (body p)}

theorem body_plainSetting {e : PartyEntry} (he : e ∈ buildPartyInfo parties) :
    (plainSetting parties hdistinct hsmall body hframed).body e.name = body e.frostId := by
  have hname : nameToFrostID parties e.name = some e.frostId :=
    nameToFrostID_entry (w := plainSetting parties hdistinct hsmall body hframed) he
  unfold plainSetting
  simp only [hname, Option.getD_some]

theorem guarded_plainSetting
    (hnames : ∀ e ∈ buildPartyInfo parties, e.name ≠ [] ∧ ValidUtf8 e.name)
    (hcount : acts.length < 2 ^ 64) :
    Guarded (RunSession.step samplePrims (plainSetting parties hdistinct hsmall body hframed))
      (Deliverable (plainSetting parties hdistinct hsmall body hframed))
      (RunSession.init (plainSetting parties hdistinct hsmall body hframed)) acts := by
  have hfresh : Fresh (plainSetting parties hdistinct hsmall body hframed) :=
    fun _ _ _ h => absurd h List.not_mem_nil
  refine (guarded_of_names samplePrims_documented hnames hfresh fun _ => ?_).1
  exact show 0 + acts.length < 2 ^ 64 by omega

end Plain

def turns (p : String) (count : ℕ) : List RunSession.Action :=
  List.replicate count (.turn (ascii p) sampleDraw)

/-- A poll that returns the first `k` messages, and what the loop does then. -/
def pollAndTurn (k count : ℕ) (p : String) : List RunSession.Action :=
  .getMessages (ascii p) true k :: turns p count

/-- The loops of these parties have returned. -/
def returned {α : Type} (names : List String) (cnet : RunSession.Net α) : Bool :=
  names.all fun p => (cnet.party (ascii p)).pc = .stopped none

theorem atRest_of_returned {α : Type} {w : RunSession.Setting α} {cnet : RunSession.Net α}
    {names : List String} (hnames : ∀ e ∈ w.setup.parties, ∃ p ∈ names, e.name = ascii p)
    (h : returned names cnet = true) : AtRest w cnet := by
  intro e he
  obtain ⟨p, hp, hname⟩ := hnames e he
  rw [hname]
  exact .inl (of_decide_eq_true (List.all_eq_true.mp h p hp))

def keygenBody (p : UInt16) :
    Ceremony (KeyPackage Reference.Scalar Reference.Scalar ×
      PublicKeyPackage Reference.Scalar Reference.Scalar) :=
  dkgRun Reference.core p 2 2 p.toNat

theorem framed_keygenBody (p : UInt16) : Framed (keygenBody p) := framed_dkgRun _

def keygenSetting : RunSession.Setting (KeyPackage Reference.Scalar Reference.Scalar ×
    PublicKeyPackage Reference.Scalar Reference.Scalar) :=
  plainSetting [ascii "b", ascii "c"] namedSetting.distinct namedSetting.small keygenBody
    framed_keygenBody

def keygenActions : List RunSession.Action :=
  turns "b" 5 ++ turns "c" 5 ++ pollAndTurn 1 7 "b" ++ pollAndTurn 1 7 "c" ++ pollAndTurn 2 3 "b" ++
    pollAndTurn 2 3 "c"

theorem keygen_over_relay_pair : ∃ cnet, RunSession.run samplePrims keygenSetting keygenActions =
    some cnet ∧ Generated keygenSetting 2 cnet := by
  obtain ⟨cnet, hcnet, hreturned⟩ := (Option.any_eq_true _ _).mp
    (show ((RunSession.run samplePrims keygenSetting keygenActions).any (returned ["b", "c"])) = true by
      decide +kernel)
  have hg : Guarded (RunSession.step samplePrims keygenSetting) (Deliverable keygenSetting)
      (RunSession.init keygenSetting) keygenActions := guarded_plainSetting (by decide) (by decide)
  have hbody : ∀ e ∈ keygenSetting.setup.parties, keygenSetting.body e.name =
      dkgRun Reference.core e.frostId 2 2 (UInt16.toNat e.frostId) := fun _ => body_plainSetting
  exact ⟨cnet, hcnet, (keygen_over_relay samplePrims_documented Reference.documented (by decide)
    (by decide) rfl hbody hg hcnet (atRest_of_returned (by decide) hreturned)).2.2 rfl⟩

theorem distinct_three : [ascii "b", ascii "c", ascii "d"].Nodup := by decide

theorem small_three : (buildPartyInfo [ascii "b", ascii "c", ascii "d"]).length < 2 ^ 16 := by decide

theorem framed_sampleBody (p : UInt16) :
    Framed (sampleSigners.signBody UInt16.toNat [9] p) := framed_signRun _ _ _ _ _

def signingSetting : RunSession.Setting Bytes :=
  plainSetting [ascii "b", ascii "c", ascii "d"] distinct_three small_three
    (sampleSigners.signBody UInt16.toNat [9]) framed_sampleBody

def signingActions : List RunSession.Action :=
  let names := ["b", "c", "d"]
  names.flatMap (turns · 6) ++ names.flatMap (pollAndTurn 2 9) ++ names.flatMap (pollAndTurn 4 5)

theorem signing_over_relay_sample : ∃ cnet, RunSession.run samplePrims signingSetting signingActions =
    some cnet ∧ (SignedOver Reference.signing signingSetting 5 [9] cnet ↔
      Faultless samplePrims signingSetting signingActions) := by
  obtain ⟨cnet, hcnet, hreturned⟩ := (Option.any_eq_true _ _).mp
    (show ((RunSession.run samplePrims signingSetting signingActions).any
      (returned ["b", "c", "d"])) = true by decide +kernel)
  have hg : Guarded (RunSession.step samplePrims signingSetting) (Deliverable signingSetting)
      (RunSession.init signingSetting) signingActions :=
    guarded_plainSetting (by decide) (by decide)
  have hbody : ∀ e ∈ signingSetting.setup.parties, signingSetting.body e.name =
      sampleSigners.signBody UInt16.toNat [9] e.frostId := fun _ => body_plainSetting
  exact ⟨cnet, hcnet, (signing_over_relay samplePrims_documented Reference.signing_documented
    (by decide) (by decide) hbody hg hcnet (atRest_of_returned (by decide) hreturned)).2.1⟩

end Loops

end Sessions
