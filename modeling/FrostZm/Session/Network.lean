import FrostZm.Session.Relay
import FrostZm.Lib.Phases
import FrostZm.Lib.Runs
import Mathlib.Data.Finset.Basic

/-!
# Parties on a relay

Each party runs a session. The relay carries every copy of every message on its
own, first in first out between one sender and one recipient and in no other
order. A corrupt party may send whatever it likes to whomever it likes.
-/

structure Setting where
  ids : Finset UInt16
  corrupt : Finset UInt16

structure Net (α : Type) where
  party : UInt16 → Protocol α
  channel : UInt16 → UInt16 → List Bytes
  /-- What each party was given so far, oldest first. -/
  fed : UInt16 → List (UInt16 × Bytes)

open Phases

namespace Net

variable {α : Type}

inductive Action where
  | drain (p : UInt16)
  | deliver (s r : UInt16)
  | inject (s r : UInt16) (m : Bytes)
deriving DecidableEq

/-- The copy of one outgoing message of `s` that goes to `r`. -/
def route (ids : Finset UInt16) (s r : UInt16) (m : Bytes) : List Bytes :=
  if r ∈ ids ∧ r ≠ s ∧ (readRecipient m = 0 ∨ readRecipient m = r) then [payload m] else []

theorem route_broadcast {ids : Finset UInt16} {s r : UInt16} (hr : r ∈ ids) (hne : r ≠ s)
    (data : Bytes) : route ids s r (u16ToLeBytes 0 ++ data) = [data] := by
  simp [route, hr, hne]

theorem route_sendTo {ids : Finset UInt16} {s r q : UInt16} (hr : r ∈ ids) (hne : r ≠ s) (hq : q ≠ 0)
    (data : Bytes) : route ids s r (u16ToLeBytes q ++ data) = if q = r then [data] else [] := by
  simp [route, hr, hne, hq]

def copies (ids : Finset UInt16) (s r : UInt16) (out : List Bytes) : List Bytes :=
  out.flatMap (route ids s r)

def step (w : Setting) (net : Net α) : Action → Option (Net α)
  | .drain p =>
    if p ∈ w.ids then
      match (net.party p).takeMsg with
      | (none, _) => none
      | (some m, proto) => some { net with
          party := Function.update net.party p proto
          channel := fun s r => net.channel s r ++ if s = p then route w.ids s r m else [] }
    else none
  | .deliver s r =>
    match net.channel s r with
    | [] => none
    | m :: rest => some {
        party := Function.update net.party r ((net.party r).feed (wrapSender s m)).2
        channel := fun s' r' => if s' = s ∧ r' = r then rest else net.channel s' r'
        fed := Function.update net.fed r (net.fed r ++ [(s, m)]) }
  | .inject s r m =>
    if s ∈ w.corrupt ∧ s ∈ w.ids ∧ r ∈ w.ids ∧ r ≠ s then some { net with
      channel := fun s' r' => net.channel s' r' ++ if s' = s ∧ r' = r then [m] else [] }
    else none

/-- Every session has started and nothing has been delivered. -/
def init (body : UInt16 → Ceremony α) : Net α where
  party := fun p => .start (body p)
  channel := fun _ _ => []
  fed := fun _ => []

abbrev run (w : Setting) (body : UInt16 → Ceremony α) (acts : List Action) : Option (Net α) :=
  Runs.run (step w) (init body) acts

/-- The frames that a party's session has read. -/
def frames (net : Net α) (p : UInt16) : List Bytes := (net.fed p).map FrostChannel.frame

/-! ## What holds in every reachable state -/

structure Inv (w : Setting) (body : UInt16 → Ceremony α) (taken : UInt16 → List Bytes)
    (net : Net α) : Prop where
  tracks : ∀ p, (net.party p).Tracks (body p) (net.frames p) (taken p)
  fifo : ∀ s r, s ∉ w.corrupt →
    sentBy s (net.fed r) ++ net.channel s r = copies w.ids s r (taken s)
  route : ∀ s r m, m ∈ sentBy s (net.fed r) ++ net.channel s r → s ∈ w.ids ∧ r ∈ w.ids ∧ r ≠ s

theorem inv_init (w : Setting) (body : UInt16 → Ceremony α) :
    Inv w body (fun _ => []) (init body) := by
  refine ⟨fun p => Protocol.tracks_start (body p), fun s r _ => rfl, ?_⟩
  intro s r m hm
  simp [init] at hm

theorem mem_route {ids : Finset UInt16} {s r : UInt16} {m x : Bytes} (h : x ∈ route ids s r m) :
    r ∈ ids ∧ r ≠ s := by
  unfold route at h
  split at h
  · next hr => exact ⟨hr.1, hr.2.1⟩
  · simp at h

variable {w : Setting} {body : UInt16 → Ceremony α} {taken : UInt16 → List Bytes} {net net' : Net α}

theorem step_drain {p : UInt16} (h : step w net (.drain p) = some net') :
    p ∈ w.ids ∧ ∃ m proto, (net.party p).takeMsg = (some m, proto) ∧ net' = { net with
      party := Function.update net.party p proto
      channel := fun s r => net.channel s r ++ if s = p then Net.route w.ids s r m else [] } := by
  simp only [step] at h
  split at h
  · next hp =>
    refine ⟨hp, ?_⟩
    split at h
    · simp at h
    · next m proto hm => exact ⟨m, proto, hm, (Option.some.inj h).symm⟩
  · simp at h

theorem step_deliver {s r : UInt16} (h : step w net (.deliver s r) = some net') :
    ∃ m rest, net.channel s r = m :: rest ∧ net' = {
      party := Function.update net.party r ((net.party r).feed (wrapSender s m)).2
      channel := fun s' r' => if s' = s ∧ r' = r then rest else net.channel s' r'
      fed := Function.update net.fed r (net.fed r ++ [(s, m)]) } := by
  simp only [step] at h
  split at h
  · simp at h
  · next m rest hc => exact ⟨m, rest, hc, (Option.some.inj h).symm⟩

theorem step_inject {s r : UInt16} {m : Bytes} (h : step w net (.inject s r m) = some net') :
    (s ∈ w.corrupt ∧ s ∈ w.ids ∧ r ∈ w.ids ∧ r ≠ s) ∧ net' = { net with
      channel := fun s' r' => net.channel s' r' ++ if s' = s ∧ r' = r then [m] else [] } := by
  simp only [step] at h
  split at h
  · next hc => exact ⟨hc, (Option.some.inj h).symm⟩
  · simp at h

theorem Inv.drain {p : UInt16} (hi : Inv w body taken net)
    (h : step w net (.drain p) = some net') : ∃ taken', Inv w body taken' net' := by
  obtain ⟨hp, m, proto, hm, rfl⟩ := step_drain h
  refine ⟨Function.update taken p (taken p ++ [m]), ?_, ?_, ?_⟩
  · intro q
    by_cases hq : q = p
    · subst hq
      simpa [frames] using (hi.tracks q).takeMsg hm
    · simpa [frames, hq] using hi.tracks q
  · intro s r hs
    have hf := hi.fifo s r hs
    by_cases hsp : s = p
    · subst hsp
      simp [← List.append_assoc, hf, copies]
    · simpa [hsp] using hf
  · intro s r x hx
    simp only [← List.append_assoc] at hx
    rcases List.mem_append.mp hx with hx | hx
    · exact hi.route s r x hx
    · split at hx
      · next hsp => exact ⟨hsp ▸ hp, mem_route hx⟩
      · simp at hx

theorem Inv.deliver {s r : UInt16} (hi : Inv w body taken net)
    (h : step w net (.deliver s r) = some net') : Inv w body taken net' := by
  obtain ⟨m, rest, hc, rfl⟩ := step_deliver h
  -- the delivered message moves from the head of the channel to the end of the log
  have hmove : ∀ s' r', sentBy s' (Function.update net.fed r (net.fed r ++ [(s, m)]) r') ++
      (if s' = s ∧ r' = r then rest else net.channel s' r') =
      sentBy s' (net.fed r') ++ net.channel s' r' := by
    intro s' r'
    by_cases hr : r' = r
    · subst hr
      by_cases hs : s' = s
      · subst hs
        simp [hc]
      · simp [hs, sentBy_cons_of_ne (Ne.symm hs)]
    · simp [hr]
  refine ⟨?_, ?_, ?_⟩
  · intro q
    by_cases hq : q = r
    · subst hq
      simpa [frames, FrostChannel.frame] using (hi.tracks q).feed (wrapSender s m)
    · simpa [frames, hq] using hi.tracks q
  · intro s' r' hs'
    rw [hmove]
    exact hi.fifo s' r' hs'
  · intro s' r' x hx
    rw [hmove] at hx
    exact hi.route s' r' x hx

theorem Inv.inject {s r : UInt16} {m : Bytes} (hi : Inv w body taken net)
    (h : step w net (.inject s r m) = some net') : Inv w body taken net' := by
  obtain ⟨⟨hs, hsi, hri, hne⟩, rfl⟩ := step_inject h
  refine ⟨hi.tracks, ?_, ?_⟩
  · intro s' r' hs'
    have hss : s' ≠ s := fun e => hs' (e ▸ hs)
    simpa [hss] using hi.fifo s' r' hs'
  · intro s' r' x hx
    simp only [← List.append_assoc] at hx
    rcases List.mem_append.mp hx with hx | hx
    · exact hi.route s' r' x hx
    · split at hx
      · next he => obtain ⟨rfl, rfl⟩ := he; exact ⟨hsi, hri, hne⟩
      · simp at hx

theorem inv_step {a : Action} (hi : ∃ taken, Inv w body taken net) (h : step w net a = some net') :
    ∃ taken, Inv w body taken net' := by
  obtain ⟨taken, hi⟩ := hi
  cases a with
  | drain p => exact hi.drain h
  | deliver s r => exact ⟨taken, hi.deliver h⟩
  | inject s r m => exact ⟨taken, hi.inject h⟩

theorem inv_run {acts : List Action} (h : run w body acts = some net) :
    ∃ taken, Inv w body taken net :=
  Runs.inv_of_run (fun net => ∃ taken, Inv w body taken net) ⟨_, inv_init w body⟩
    (fun _ _ _ hi hs => inv_step hi hs) h

/-! ## Its consequences -/

theorem outcome_eq {acts : List Action} (h : run w body acts = some net) (p : UInt16) :
    (net.party p).outcome = ((body p).eval (net.frames p)).map Prod.fst := by
  obtain ⟨taken, hi⟩ := inv_run h
  exact (hi.tracks p).outcome

/-- What an honest party's peers were given from it, and what is under way to them,
is what its session wrote, in that order. -/
theorem sentBy_le_copies {acts : List Action} (h : run w body acts = some net) {s : UInt16}
    (hs : s ∉ w.corrupt) (r : UInt16) :
    sentBy s (net.fed r) ++ net.channel s r <+:
      copies w.ids s r ((body s).outs (net.frames s)) := by
  obtain ⟨taken, hi⟩ := inv_run h
  rw [hi.fifo s r hs, ← (hi.tracks s).outbox]
  simp only [copies, List.flatMap_append]
  exact List.prefix_append _ _

theorem mem_fed {acts : List Action} (h : run w body acts = some net) {s r : UInt16} {m : Bytes}
    (hm : (s, m) ∈ net.fed r) : s ∈ w.ids ∧ r ∈ w.ids ∧ r ≠ s := by
  obtain ⟨taken, hi⟩ := inv_run h
  refine hi.route s r m (List.mem_append_left _ ?_)
  exact List.mem_map.mpr ⟨(s, m), List.mem_filter.mpr ⟨hm, by simp⟩, rfl⟩

theorem mem_channel {acts : List Action} (h : run w body acts = some net) {s r : UInt16} {m : Bytes}
    (hm : m ∈ net.channel s r) : s ∈ w.ids ∧ r ∈ w.ids ∧ r ≠ s := by
  obtain ⟨taken, hi⟩ := inv_run h
  exact hi.route s r m (List.mem_append_right _ hm)

end Net
