import FrostZm.Client.Fifo
import FrostZm.Lib.Simulations
import FrostZm.Session.Recipients
import FrostZm.Session.Schedule

/-!
# The loops refine the relay

What the loops do on the logs of the relay, with their polls, numbers and filters, is what
sessions do on channels: a loop that takes a frame from its session drains it, and one that feeds
a frame delivers it.
-/

open RunSession hiding Setting Net Action run step init post Inv inv_init inv_step inv_run
open Relay Phases Runs

namespace Loops

/-- The parties of the setup message, all of them honest. -/
def network (setup : SetupMsg) : Setting := ⟨setup.ids.toFinset, ∅⟩

section Refinement

variable (prims : Primitives) {α : Type} (w : RunSession.Setting α) (body : UInt16 → Ceremony α)

/-- What a step of a loop is among sessions on channels. -/
def relayed (cnet : RunSession.Net α) : RunSession.Action → Option Net.Action
  | .turn p _ => do
    let myId ← w.setup.frostIdByName p
    match (cnet.party p).pc with
    | .drain _ => if (cnet.party p).session.outbox = [] then none else some (.drain myId)
    | .inbox =>
      match (cnet.party p).reader.look seenKey with
      | some (some m, _) => (nameToFrostID w.allParties m.fromParty).map (Net.Action.deliver · myId)
      | _ => none
    | _ => none
  | _ => none

/-- The sessions of the setting are those of the ids, and none of them writes to itself. -/
structure Bodies : Prop where
  body_eq : ∀ e ∈ w.setup.parties, w.body e.name = body e.frostId
  spares : ∀ e ∈ w.setup.parties, (body e.frostId).Spares e.frostId

/-- The sessions are where the loops are. -/
structure Mirrors (cnet : RunSession.Net α) (net : Net α) : Prop where
  inv : RunSession.Inv prims w cnet
  netInv : ∃ taken, Net.Inv (network w.setup) body taken net
  party : ∀ e ∈ w.setup.parties, net.party e.frostId = (cnet.party e.name).session
  frames : ∀ e ∈ w.setup.parties, net.frames e.frostId = (cnet.party e.name).fed

end Refinement

variable {prims : Primitives} {α : Type} {w : RunSession.Setting α} {body : UInt16 → Ceremony α}
  {cnet cnet' : RunSession.Net α} {net : Net α} {e r : PartyEntry} {msg : Bytes}

/-! ## Entries -/

theorem frostIdByName_entry (he : e ∈ w.setup.parties) :
    w.setup.frostIdByName e.name = some e.frostId := by
  unfold SetupMsg.frostIdByName
  rw [find?_of_nodup (nodup_setup_names w) he]
  rfl

theorem entry_eq_iff (he : e ∈ w.setup.parties) (hr : r ∈ w.setup.parties) :
    e.frostId = r.frostId ↔ e.name = r.name := by
  constructor
  · intro h
    rw [List.inj_on_of_nodup_map (nodup_setup_ids w) he hr h]
  · intro h
    rw [List.inj_on_of_nodup_map (nodup_setup_names w) he hr h]

theorem mem_network (he : e ∈ w.setup.parties) : e.frostId ∈ (network w.setup).ids :=
  List.mem_toFinset.mpr (List.mem_map_of_mem he)

theorem mem_receivers_iff (hr : r ∈ w.setup.parties) {sid : UInt16} :
    r.name ∈ receivers w.setup sid msg ↔
      if readRecipient msg = 0 then r.frostId ≠ sid else readRecipient msg = r.frostId := by
  unfold receivers
  split
  · constructor
    · intro h
      obtain ⟨x, hx, hname⟩ := List.mem_map.mp h
      obtain ⟨hx, hne⟩ := List.mem_filter.mp hx
      rw [← (entry_eq_iff hx hr).mpr hname]
      exact of_decide_eq_true hne
    · intro h
      exact List.mem_map_of_mem (List.mem_filter.mpr ⟨hr, decide_eq_true h⟩)
  · rw [Option.mem_toList]
    constructor
    · intro h
      exact (entry_eq_iff (entry_of_partyName h) hr).mpr rfl
    · intro h
      rw [h]
      exact partyName_entry hr

theorem copiesTo_eq (he : e ∈ w.setup.parties) (hr : r ∈ w.setup.parties) (hne : r ≠ e)
    {frames : List Bytes} (hlen : ∀ msg ∈ frames, 2 ≤ msg.length) :
    copiesTo w e.frostId r.name frames =
      Net.copies (network w.setup).ids e.frostId r.frostId frames := by
  have hid : r.frostId ≠ e.frostId := by
    intro h
    exact hne (List.inj_on_of_nodup_map (nodup_setup_ids w) hr he h)
  induction frames with
  | nil => rfl
  | cons msg frames ih =>
    have hmsg := hlen msg List.mem_cons_self
    have hrest := ih fun x hx => hlen x (List.mem_cons_of_mem _ hx)
    have hroute : Net.route (network w.setup).ids e.frostId r.frostId msg =
        if r.name ∈ receivers w.setup e.frostId msg then [msg.drop 2] else [] := by
      unfold Net.route payload
      rw [if_neg (Nat.not_lt.mpr hmsg)]
      apply if_congr _ rfl rfl
      rw [mem_receivers_iff hr]
      split
      · next hall => simp [mem_network hr, hid, hall]
      · next hall => simp [mem_network hr, hid, hall]
    unfold Net.copies copiesTo at hrest ⊢
    rw [List.flatMap_cons, ← hrest, hroute]
    by_cases hmem : r.name ∈ receivers w.setup e.frostId msg
    · simp [hmem]
    · simp [hmem]

/-! ## What is on its way -/

theorem frame_injective : Function.Injective FrostChannel.frame := by
  intro x y h
  rw [← FrostChannel.unframe_frame x, h, FrostChannel.unframe_frame]

namespace Mirrors

theorem taken_eq (h : Mirrors prims w body cnet net) (hb : Bodies w body)
    {taken : UInt16 → List Bytes} (hinv : Net.Inv (network w.setup) body taken net)
    (he : e ∈ w.setup.parties) : taken e.frostId = (cnet.party e.name).taken := by
  have hnet := (hinv.tracks e.frostId).outbox
  have hloop := (h.inv.party e.name).tracks.outbox
  rw [h.party e he, h.frames e he, ← hb.body_eq e he, ← hloop] at hnet
  exact List.append_cancel_right hnet

theorem fed_eq (h : Mirrors prims w body cnet net) (hr : r ∈ w.setup.parties) :
    net.fed r.frostId = (cnet.party r.name).reader.taken.map fun m =>
      ((nameToFrostID w.allParties m.fromParty).getD 0, payloadOf prims w m) := by
  apply List.map_injective_iff.mpr frame_injective
  rw [List.map_map]
  exact (h.frames r hr).trans (h.inv.party r.name).fed

theorem sentBy_fed (h : Mirrors prims w body cnet net) (he : e ∈ w.setup.parties)
    (hr : r ∈ w.setup.parties) : sentBy e.frostId (net.fed r.frostId) =
      ((cnet.party r.name).reader.taken.filter (·.fromParty = e.name)).map (payloadOf prims w) := by
  unfold sentBy
  rw [h.fed_eq hr, List.filter_map, List.map_map]
  congr 1
  apply List.filter_congr
  intro m hm
  have hposted := h.inv.posted r.name m ((h.inv.party r.name).reads.taken_le.subset hm)
  obtain ⟨x, hx, hname⟩ := hposted.sender
  simp only [Function.comp_apply, ← hname, nameToFrostID_entry hx, Option.getD_some,
    entry_eq_iff hx he]

theorem length_taken (h : Mirrors prims w body cnet net) (p : GoString) :
    ∀ msg ∈ (cnet.party p).taken, 2 ≤ msg.length := by
  intro msg hmsg
  apply w.framed p (cnet.party p).fed
  rw [← (h.inv.party p).tracks.outbox]
  exact List.mem_append_left _ hmsg

theorem copiesTo_self (h : Mirrors prims w body cnet net) (hb : Bodies w body)
    (he : e ∈ w.setup.parties) : copiesTo w e.frostId e.name (cnet.party e.name).taken = [] := by
  obtain ⟨taken, hinv⟩ := h.netInv
  have hothers : ∀ m ∈ net.fed e.frostId, m.1 ≠ e.frostId := by
    rintro m hm heq
    have hmem : m.2 ∈ sentBy e.frostId (net.fed e.frostId) :=
      List.mem_map_of_mem (List.mem_filter.mpr ⟨hm, decide_eq_true heq⟩)
    exact (hinv.route _ _ _ (List.mem_append_left _ hmem)).2.2 rfl
  unfold copiesTo
  rw [List.map_eq_nil_iff, List.filter_eq_nil_iff]
  intro msg hmsg
  have houts : msg ∈ (body e.frostId).outs (net.frames e.frostId) := by
    rw [h.frames e he, ← hb.body_eq e he, ← (h.inv.party e.name).tracks.outbox]
    exact List.mem_append_left _ hmsg
  have hself := hb.spares e he _ hothers msg houts
  rw [decide_eq_true_eq, mem_receivers_iff he]
  split
  · exact fun hne => hne rfl
  · exact hself

theorem channel_eq (h : Mirrors prims w body cnet net) (hb : Bodies w body)
    (hr : r ∈ w.setup.parties) {m : Message} {reader : Polling.Reader Message (GoString × UInt64)}
    (hlook : (cnet.party r.name).reader.look seenKey = some (some m, reader)) :
    ∃ sid rest, nameToFrostID w.allParties m.fromParty = some sid ∧
      net.channel sid r.frostId = payloadOf prims w m :: rest := by
  obtain ⟨hreads, htaken, -, -, hm⟩ := (h.inv.party r.name).reads.look_some hlook
  obtain ⟨e, he, hname⟩ := (h.inv.posted r.name m hm).sender
  refine ⟨e.frostId, ?_⟩
  rw [← hname]
  have hid := frostIdByName_entry he
  have hprefix : ((cnet.party r.name).reader.taken.filter (·.fromParty = e.name)).map
      (payloadOf prims w) ++ [payloadOf prims w m] <+:
      copiesTo w e.frostId r.name (cnet.party e.name).taken := by
    have hlog := ((hreads.taken_le.filter (·.fromParty = e.name)).map (payloadOf prims w))
    rw [htaken, h.inv.sent e.name e.frostId hid r.name, List.filter_append, List.map_append] at hlog
    have hlast : [m].filter (·.fromParty = e.name) = [m] := by simp [hname]
    rw [hlast] at hlog
    exact hlog.trans ((h.inv.party e.name).sentTo_le hid r.name)
  have hne : r ≠ e := by
    rintro rfl
    rw [h.copiesTo_self hb hr, List.prefix_nil] at hprefix
    simp at hprefix
  obtain ⟨taken, hinv⟩ := h.netInv
  have hfifo := hinv.fifo e.frostId r.frostId (Finset.notMem_empty _)
  rw [h.taken_eq hb hinv he, ← copiesTo_eq he hr hne (h.length_taken e.name), h.sentBy_fed he hr] at hfifo
  rw [← hfifo, List.prefix_append_right_inj] at hprefix
  obtain ⟨rest, hrest⟩ := hprefix
  exact ⟨rest, nameToFrostID_entry he, hrest.symm⟩

/-! ## One step -/

theorem init (prims : Primitives) (hb : Bodies w body) :
    Mirrors prims w body (RunSession.init w) (Net.init body) where
  inv := RunSession.inv_init prims w
  netInv := ⟨_, Net.inv_init (network w.setup) body⟩
  party e he := congrArg Protocol.start (hb.body_eq e he).symm
  frames _ _ := rfl

variable {p : GoString} {myId : UInt16} {q : RunSession.Party α}

theorem stutter (h : Mirrors prims w body cnet net) {log : GoString → List Message}
    (hinv : RunSession.Inv prims w { cnet.setParty p q with log })
    (hsession : q.session = (cnet.party p).session) (hfed : q.fed = (cnet.party p).fed) :
    Mirrors prims w body { cnet.setParty p q with log } net := by
  refine ⟨hinv, h.netInv, fun e he => ?_, fun e he => ?_⟩
  · rw [h.party e he]
    by_cases hp : e.name = p
    · simp [RunSession.Net.setParty, hp, hsession]
    · simp [RunSession.Net.setParty, hp]
  · rw [h.frames e he]
    by_cases hp : e.name = p
    · simp [RunSession.Net.setParty, hp, hfed]
    · simp [RunSession.Net.setParty, hp]

theorem update (h : Mirrors prims w body cnet net) {net' : Net α} {b : Net.Action}
    (hid : w.setup.frostIdByName p = some myId) {log : GoString → List Message}
    (hinv : RunSession.Inv prims w { cnet.setParty p q with log })
    (hstep : Net.step (network w.setup) net b = some net')
    (hparty : net'.party = Function.update net.party myId q.session)
    (hframes : net'.frames = Function.update net.frames myId q.fed) :
    Mirrors prims w body { cnet.setParty p q with log } net' := by
  have hentry : ∀ e ∈ w.setup.parties, e.frostId = myId ↔ e.name = p :=
    fun e he => entry_eq_iff he (entry_of_frostIdByName hid)
  refine ⟨hinv, Net.inv_step h.netInv hstep, fun e he => ?_, fun e he => ?_⟩
  · rw [hparty]
    by_cases hp : e.name = p
    · simp [RunSession.Net.setParty, hp, (hentry e he).mpr hp]
    · have hne : e.frostId ≠ myId := fun heq => hp ((hentry e he).mp heq)
      simp [RunSession.Net.setParty, hp, hne, h.party e he]
  · rw [hframes]
    by_cases hp : e.name = p
    · simp [RunSession.Net.setParty, hp, (hentry e he).mpr hp]
    · have hne : e.frostId ≠ myId := fun heq => hp ((hentry e he).mp heq)
      simp [RunSession.Net.setParty, hp, hne, h.frames e he]

theorem take (h : Mirrors prims w body cnet net) (hid : w.setup.frostIdByName p = some myId)
    {session : Protocol α} (hmsg : (cnet.party p).session.takeMsg = (some msg, session))
    {log : GoString → List Message} (hsession : q.session = session)
    (hfed : q.fed = (cnet.party p).fed)
    (hinv : RunSession.Inv prims w { cnet.setParty p q with log }) :
    ∃ net', Net.step (network w.setup) net (.drain myId) = some net' ∧
      Mirrors prims w body { cnet.setParty p q with log } net' := by
  have he := entry_of_frostIdByName hid
  have hparty : net.party myId = (cnet.party p).session := h.party _ he
  have hframes : net.frames myId = (cnet.party p).fed := h.frames _ he
  obtain ⟨net', hnet'⟩ : ∃ net', Net.step (network w.setup) net (.drain myId) = some net' := by
    simp [Net.step, mem_network he, hparty, hmsg]
  refine ⟨net', hnet', ?_⟩
  obtain ⟨-, m, proto, hm, rfl⟩ := Net.step_drain hnet'
  rw [hparty, hmsg] at hm
  obtain ⟨-, rfl⟩ := Prod.mk.inj hm
  refine h.update hid hinv hnet' (by rw [hsession]) ?_
  funext x
  by_cases hx : x = myId
  · subst hx
    simp [hfed, ← hframes, Net.frames]
  · simp [hx, Net.frames]

theorem feed (h : Mirrors prims w body cnet net) (hb : Bodies w body)
    (hid : w.setup.frostIdByName p = some myId) {m : Message}
    {reader : Polling.Reader Message (GoString × UInt64)}
    (hlook : (cnet.party p).reader.look seenKey = some (some m, reader))
    {log : GoString → List Message}
    (hsession : q.session = ((cnet.party p).session.feed (frameOf prims w m)).2)
    (hfed : q.fed = (cnet.party p).fed ++ [frameOf prims w m])
    (hinv : RunSession.Inv prims w { cnet.setParty p q with log }) :
    ∃ sid net', nameToFrostID w.allParties m.fromParty = some sid ∧
      Net.step (network w.setup) net (.deliver sid myId) = some net' ∧
      Mirrors prims w body { cnet.setParty p q with log } net' := by
  have he := entry_of_frostIdByName hid
  have hparty : net.party myId = (cnet.party p).session := h.party _ he
  have hframes : net.frames myId = (cnet.party p).fed := h.frames _ he
  obtain ⟨sid, rest, hname, hchannel⟩ := h.channel_eq hb (r := ⟨myId, p⟩) he hlook
  have hframe : frameOf prims w m = wrapSender sid (payloadOf prims w m) := by
    rw [frameOf, hname, Option.getD_some]
  obtain ⟨net', hnet'⟩ : ∃ net', Net.step (network w.setup) net (.deliver sid myId) = some net' := by
    simp only at hchannel
    simp [Net.step, hchannel]
  refine ⟨sid, net', hname, hnet', ?_⟩
  obtain ⟨x, rest', hx, rfl⟩ := Net.step_deliver hnet'
  obtain ⟨rfl, rfl⟩ := List.cons.inj (hchannel.symm.trans hx)
  refine h.update hid hinv hnet' ?_ ?_
  · rw [hsession, hframe, hparty]
  · funext y
    by_cases hy : y = myId
    · subst hy
      simp [hfed, ← hframes, Net.frames, hframe, FrostChannel.frame]
    · simp [hy, Net.frames]

end Mirrors

/-- Each step of the loops is one step of the sessions on their channels, or none. -/
theorem step_mirrors (doc : prims.Documented) (hb : Bodies w body)
    (h : Mirrors prims w body cnet net) {a : RunSession.Action} (hg : Deliverable w cnet a)
    (hs : RunSession.step prims w cnet a = some cnet') :
    (relayed w cnet a).elim (Mirrors prims w body cnet' net) fun b =>
      ∃ net', Net.step (network w.setup) net b = some net' ∧ Mirrors prims w body cnet' net' := by
  have hinv := RunSession.inv_step doc h.inv hg hs
  cases a with
  | getMessages p whole k =>
    obtain ⟨reader, -, -, rfl⟩ := step_getMessages hs
    exact h.stutter hinv rfl rfl
  | cancel p =>
    obtain ⟨-, rfl⟩ := step_cancel hs
    exact h.stutter hinv rfl rfl
  | turn p draw =>
    obtain ⟨myId, q, posted, hid, hturn, rfl⟩ := step_turn hs
    have hturned : Turned prims w p myId draw (cnet.party p) q posted :=
      (h.inv.party p).turned doc (h.inv.posted p) hid
        (fun final msg i hpc name hname => (hg myId hid final msg i hpc name hname).1) hturn
    cases hturned with
    | start hpc =>
      have hact : relayed w cnet (.turn p draw) = none := by simp [relayed, hid, hpc]
      rw [hact]
      exact h.stutter hinv rfl rfl
    | drained final hpc hbox =>
      have hact : relayed w cnet (.turn p draw) = none := by simp [relayed, hid, hpc, hbox]
      rw [hact]
      exact h.stutter hinv rfl rfl
    | take final msg hpc session hmsg =>
      have hbox : (cnet.party p).session.outbox ≠ [] := by
        intro hbox
        simp [Protocol.takeMsg, hbox] at hmsg
      have hact : relayed w cnet (.turn p draw) = some (.drain myId) := by
        simp [relayed, hid, hpc, hbox]
      rw [hact]
      exact h.take hid hmsg rfl rfl hinv
    | sent final msg i hpc hall =>
      have hact : relayed w cnet (.turn p draw) = none := by simp [relayed, hid, hpc]
      rw [hact]
      exact h.stutter hinv rfl rfl
    | send final msg i hpc name hname hutf8 =>
      have hact : relayed w cnet (.turn p draw) = none := by simp [relayed, hid, hpc]
      rw [hact]
      exact h.stutter hinv rfl rfl
    | looked hpc hrest =>
      have hlook : (cnet.party p).reader.look seenKey = none :=
        Polling.Reader.look_eq_none_iff.mpr hrest
      have hact : relayed w cnet (.turn p draw) = none := by simp [relayed, hid, hpc, hlook]
      rw [hact]
      exact h.stutter hinv rfl rfl
    | skip hpc reader hlook =>
      have hact : relayed w cnet (.turn p draw) = none := by simp [relayed, hid, hpc, hlook]
      rw [hact]
      exact h.stutter hinv rfl rfl
    | feed hpc m reader hlook client hkey hcounter hseen =>
      obtain ⟨sid, net', hname, hstep, hmirrors⟩ := h.feed hb hid hlook rfl rfl hinv
      have hact : relayed w cnet (.turn p draw) = some (.deliver sid myId) := by
        simp [relayed, hid, hpc, hlook, hname]
      rw [hact]
      exact ⟨net', hstep, hmirrors⟩

theorem simulates (doc : prims.Documented) (hb : Bodies w body) :
    Simulates (RunSession.step prims w) (Deliverable w) (Net.step (network w.setup)) (relayed w)
      (Mirrors prims w body) where
  matched _ _ _ _ b hrel hg hs hact := by
    have h := step_mirrors doc hb hrel hg hs
    rw [hact] at h
    exact h
  stutters _ _ _ _ hrel hg hs hact := by
    have h := step_mirrors doc hb hrel hg hs
    rw [hact] at h
    exact h

/-- The loops refine the sessions on channels. Along a run of the loops there is a run in which each
session is where its loop has it and was given what its loop has fed; what is on a channel is what
the sender's loop has taken for the recipient and the recipient was not fed with. -/
theorem loops_refine_relay (doc : prims.Documented) (hb : Bodies w body)
    {acts : List RunSession.Action}
    (hg : Guarded (RunSession.step prims w) (Deliverable w) (RunSession.init w) acts)
    (hr : RunSession.run prims w acts = some cnet) :
    ∃ net, Net.run (network w.setup) body
        (trace (RunSession.step prims w) (relayed w) (RunSession.init w) acts) = some net ∧
      ∀ e ∈ w.setup.parties, net.party e.frostId = (cnet.party e.name).session ∧
        net.frames e.frostId = (cnet.party e.name).fed ∧
        ∀ r ∈ w.setup.parties, r ≠ e →
          sentBy e.frostId (net.fed r.frostId) ++ net.channel e.frostId r.frostId =
            copiesTo w e.frostId r.name (cnet.party e.name).taken := by
  obtain ⟨net, hnet, hrel⟩ := (simulates doc hb).run (Mirrors.init prims hb) hg hr
  refine ⟨net, hnet, fun e he => ⟨hrel.party e he, hrel.frames e he, fun r hr hne => ?_⟩⟩
  obtain ⟨taken, hinv⟩ := hrel.netInv
  rw [hinv.fifo e.frostId r.frostId (Finset.notMem_empty _), hrel.taken_eq hb hinv he,
    copiesTo_eq he hr hne (hrel.length_taken e.name)]

/-! ## A message for one party -/

def pairBody (p : UInt16) : Ceremony Bytes := sampleBody (if p = 1 then ascii "b" else ascii "c")

theorem spares_sampleBody {p : UInt16} (hp : p ≠ 0) (name : GoString) :
    Ceremony.Spares p (sampleBody name) := by
  have hrecv : Ceremony.Spares p FrostChannel.recv := Ceremony.spares_of_outs fun t => by
    cases t <;> rfl
  unfold sampleBody
  split
  · refine (Ceremony.spares_broadcast hp [7]).bind fun _ _ _ _ _ => ?_
    exact hrecv.bind fun _ _ _ _ _ => Ceremony.spares_of_outs fun _ => rfl
  · exact hrecv.bind fun _ _ _ _ _ => Ceremony.spares_of_outs fun _ => rfl

theorem mem_namedSetting (he : e ∈ namedSetting.setup.parties) :
    e = ⟨1, ascii "b"⟩ ∨ e = ⟨2, ascii "c"⟩ := by
  have hparties : namedSetting.setup.parties = [⟨1, ascii "b"⟩, ⟨2, ascii "c"⟩] := by decide
  rw [hparties] at he
  simpa using he

theorem bodies_pairBody : Bodies namedSetting pairBody where
  body_eq e he := by rcases mem_namedSetting he with rfl | rfl <;> rfl
  spares e he := by
    rcases mem_namedSetting he with rfl | rfl
    · exact spares_sampleBody (by decide) _
    · exact spares_sampleBody (by decide) _

theorem loops_refine_relay_sample : ∃ cnet net,
    RunSession.run samplePrims namedSetting (sampleActions 1 5) = some cnet ∧
    Net.run (network namedSetting.setup) pairBody [.drain 1, .deliver 1 2] = some net ∧
    ∀ e ∈ namedSetting.setup.parties, net.party e.frostId = (cnet.party e.name).session ∧
      net.frames e.frostId = (cnet.party e.name).fed := by
  obtain ⟨cnet, hcnet⟩ := Option.isSome_iff_exists.mp
    (show (RunSession.run samplePrims namedSetting (sampleActions 1 5)).isSome by decide +kernel)
  have htrace : trace (RunSession.step samplePrims namedSetting) (relayed namedSetting)
      (RunSession.init namedSetting) (sampleActions 1 5) = [.drain 1, .deliver 1 2] := by
    decide +kernel
  have hcount : ∀ p, (namedSetting.client p).seqCounter.toNat + (sampleActions 1 5).length < 2 ^ 64 :=
    fun _ => show 0 + 9 < 2 ^ 64 by omega
  have hfresh : Fresh namedSetting := fun _ _ _ h => absurd h List.not_mem_nil
  have hg := (guarded_of_names samplePrims_documented (by decide) hfresh hcount).1
  obtain ⟨net, hnet, hall⟩ := loops_refine_relay samplePrims_documented bodies_pairBody hg hcnet
  rw [htrace] at hnet
  exact ⟨cnet, net, hcnet, hnet, fun e he => ⟨(hall e he).1, (hall e he).2.1⟩⟩

end Loops
