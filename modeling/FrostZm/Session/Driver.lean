import FrostZm.Lib.Queues
import FrostZm.Session.Relay

/-!
# What the session driver runs

However the calls of `feed` and `take_msg` come, a session does what its body does between
two plain queues.
-/

namespace Protocol

variable {α : Type}

inductive Call where
  | feed (frame : Bytes)
  | takeMsg

/-- A session with everything that went in and out. -/
structure Log (α : Type) where
  protocol : Protocol α
  fed : List Bytes
  /-- The frames that were fed when there was an outcome. -/
  late : List Bytes
  taken : List Bytes

namespace Log

def call (log : Log α) : Call → Log α
  | .feed frame => { log with
      protocol := (log.protocol.feed frame).2
      fed := log.fed ++ [frame]
      late := if log.protocol.outcome.isSome then log.late ++ [frame] else log.late }
  | .takeMsg => { log with
      protocol := log.protocol.takeMsg.2
      taken := log.taken ++ log.protocol.takeMsg.1.toList }

def run (body : Ceremony α) (calls : List Call) : Log α :=
  calls.foldl call ⟨start body, [], [], []⟩

/-- The body has run on the frames that were fed: what it wrote, how it ended, and which
frames it left unread. -/
def RunsOnQueues (body : Ceremony α) (log : Log α) : Prop :=
  ∃ c : Proc.Queues Fault Bytes Bytes α, Proc.Queues.Steps ⟨body, log.fed, []⟩ c ∧ c.Halted ∧
    log.taken ++ log.protocol.outbox = c.outbox ∧ log.protocol.outcome = c.outcome ∧
    log.protocol.inbox ++ log.late = c.inbox

/-! ## The calls one by one -/

theorem poll_unread {body : Ceremony α} {inbox : List Bytes} {x : Result α}
    (h : (poll body inbox).outcome = some x) :
    body.eval inbox = some (x, (poll body inbox).inbox) := by
  induction body generalizing inbox with
  | ret a => exact congrArg (Option.map (·, inbox)) h
  | fail e => exact congrArg (Option.map (·, inbox)) h
  | emit o p ih => exact ih h
  | recv k ih =>
    cases inbox with
    | nil => nomatch h
    | cons frame inbox => exact ih frame h

/-- `Tracks`, with the frames that were not read. -/
structure Simulates (body : Ceremony α) (log : Log α) : Prop where
  tracks : Tracks body log.fed log.taken log.protocol
  unread : ∀ x, log.protocol.outcome = some x →
    body.eval log.fed = some (x, log.protocol.inbox ++ log.late)
  late : log.protocol.outcome = none → log.late = []

variable {body : Ceremony α} {log : Log α}

theorem simulates_start (body : Ceremony α) : Simulates body ⟨start body, [], [], []⟩ where
  tracks := tracks_start body
  unread x h := by
    rw [List.append_nil]
    exact poll_unread h
  late _ := rfl

theorem feed_of_some {p : Protocol α} (h : p.outcome.isSome) (frame : Bytes) :
    p.feed frame = (true, p) := by
  unfold Protocol.feed
  rw [if_pos h]

theorem feed_fst (p : Protocol α) (frame : Bytes) :
    (p.feed frame).1 = true → (p.feed frame).2.outcome.isSome ∨ p.task = none := by
  unfold Protocol.feed
  split
  · next h => exact fun _ => .inl h
  · unfold advance
    cases htask : p.task with
    | none => exact fun _ => .inr rfl
    | some task => exact fun h => .inl h

theorem Simulates.feed (h : Simulates body log) (frame : Bytes) :
    Simulates body (log.call (.feed frame)) := by
  have htracks := h.tracks.feed frame
  cases hout : log.protocol.outcome with
  | some x =>
    have hsome : log.protocol.outcome.isSome := by
      rw [hout]
      rfl
    refine ⟨htracks, fun y hy => ?_, fun hnone => ?_⟩
    · simp only [call, feed_of_some hsome, hsome, if_true] at hy ⊢
      rw [Proc.eval_append (h.unread y hy), List.append_assoc]
    · simp only [call, feed_of_some hsome] at hnone
      rw [hout] at hnone
      nomatch hnone
  | none =>
    obtain ⟨hin, task, htask, hrun⟩ := h.tracks.pending hout
    have hlate : (log.call (.feed frame)).late = [] := by
      simp only [call, hout, Option.isSome_none, Bool.false_eq_true, if_false, h.late hout]
    refine ⟨htracks, fun x hx => ?_, fun _ => hlate⟩
    have hfeed : (log.protocol.feed frame).2 = { poll task [frame] with
        outbox := log.protocol.outbox ++ (poll task [frame]).outbox } := by
      simp [Protocol.feed, hout, advance, htask, hin]
    have hpoll : (poll task [frame]).outcome = some x := by
      have hx' : (log.protocol.feed frame).2.outcome = some x := hx
      rwa [hfeed] at hx'
    rw [hlate, List.append_nil]
    have hinbox : (log.call (.feed frame)).protocol.inbox = (poll task [frame]).inbox := by
      simp only [call, hfeed]
    rw [hinbox, ← poll_unread hpoll]
    exact ((hrun [frame]).1).symm

theorem takeMsg_snd (p : Protocol α) :
    p.takeMsg.2.outcome = p.outcome ∧ p.takeMsg.2.inbox = p.inbox := by
  unfold Protocol.takeMsg
  split
  · exact ⟨rfl, rfl⟩
  · exact ⟨rfl, rfl⟩

theorem Simulates.takeMsg (h : Simulates body log) : Simulates body (log.call .takeMsg) := by
  obtain ⟨hout, hin⟩ := takeMsg_snd log.protocol
  have htracks : Tracks body log.fed (log.taken ++ log.protocol.takeMsg.1.toList)
      log.protocol.takeMsg.2 := by
    rcases hm : log.protocol.takeMsg with ⟨_ | m, q⟩
    · have hsame : q = log.protocol := by
        unfold Protocol.takeMsg at hm
        split at hm
        · exact (Prod.mk.inj hm).2.symm
        · nomatch hm
      simpa [hsame] using h.tracks
    · exact h.tracks.takeMsg hm
  refine ⟨htracks, fun x hx => ?_, fun hnone => ?_⟩
  · simp only [call, hout, hin] at hx ⊢
    exact h.unread x hx
  · simp only [call, hout] at hnone ⊢
    exact h.late hnone

theorem simulates_run (body : Ceremony α) (calls : List Call) : Simulates body (run body calls) := by
  unfold run
  induction calls using List.reverseRecOn with
  | nil => exact simulates_start body
  | append_singleton calls c ih =>
    rw [List.foldl_append]
    cases c with
    | feed frame => exact ih.feed frame
    | takeMsg => exact ih.takeMsg

/-! ## The whole run -/

theorem Simulates.runsOnQueues (h : Simulates body log) : RunsOnQueues body log := by
  obtain ⟨c, hsteps, hhalt, hout, heval, hinbox⟩ := Proc.Queues.exists_halted body log.fed []
  rw [List.nil_append] at hout
  refine ⟨c, hsteps, hhalt, h.tracks.outbox.trans hout.symm, ?_, ?_⟩
  · rw [h.tracks.outcome, ← heval, Option.map_map]
    cases c.outcome with
    | none => rfl
    | some x => rfl
  · cases hc : c.outcome with
    | none =>
      have hnone : log.protocol.outcome = none := by
        rw [h.tracks.outcome, ← heval, hc]
        rfl
      rw [(h.tracks.pending hnone).1, h.late hnone, hinbox hc]
      rfl
    | some x =>
      have hsome : log.protocol.outcome = some x := by
        rw [h.tracks.outcome, ← heval, hc]
        rfl
      have hunread := h.unread x hsome
      rw [← heval, hc, Option.map_some] at hunread
      exact (Prod.mk.inj (Option.some.inj hunread)).2.symm

theorem Simulates.feed_fst (h : Simulates body log) (frame : Bytes) :
    (log.protocol.feed frame).1 = true ↔ (log.protocol.feed frame).2.outcome.isSome := by
  constructor
  · intro hdone
    rcases Log.feed_fst log.protocol frame hdone with hsome | htask
    · exact hsome
    · cases hout : log.protocol.outcome with
      | none =>
        obtain ⟨-, task, hsome, -⟩ := h.tracks.pending hout
        rw [htask] at hsome
        nomatch hsome
      | some x =>
        have hsome : log.protocol.outcome.isSome := by
          rw [hout]
          rfl
        rwa [feed_of_some hsome]
  · intro hsome
    unfold Protocol.feed at hsome ⊢
    split
    · rfl
    · next hnone =>
      rw [if_neg hnone] at hsome
      unfold advance at hsome ⊢
      cases htask : log.protocol.task with
      | none => rfl
      | some task =>
        simp only [htask] at hsome ⊢
        exact hsome

/-- Whatever the schedule of the calls, the body runs on the frames as on plain queues, `feed`
tells whether it has ended, and frames that come later change nothing. -/
theorem driver_faithful (body : Ceremony α) (calls : List Call) :
    RunsOnQueues body (run body calls) ∧
    (∀ frame, ((run body calls).protocol.feed frame).1 = true ↔
      ((run body calls).protocol.feed frame).2.outcome.isSome) ∧
    (∀ frame, (run body calls).protocol.outcome.isSome →
      (run body calls).protocol.feed frame = (true, (run body calls).protocol)) ∧
    ∀ calls', (run body calls').fed = (run body calls).fed →
      (run body calls').taken ++ (run body calls').protocol.outbox =
        (run body calls).taken ++ (run body calls).protocol.outbox ∧
      (run body calls').protocol.outcome = (run body calls).protocol.outcome := by
  have hrun := simulates_run body calls
  refine ⟨hrun.runsOnQueues, hrun.feed_fst, fun frame hsome => feed_of_some hsome frame, ?_⟩
  intro calls' hfed
  have hrun' := simulates_run body calls'
  rw [hrun.tracks.outbox, hrun'.tracks.outbox, hrun.tracks.outcome, hrun'.tracks.outcome, hfed]
  exact ⟨rfl, rfl⟩

/-- A body that repeats what it reads once. -/
def echo : Ceremony Bytes := do
  let (_, data) ← FrostChannel.recv
  FrostChannel.broadcast data
  return data

theorem driver_faithful_echo : (run echo [.feed [1, 0, 7], .feed [2, 0]]).protocol.outcome =
    (run echo [.feed [1, 0, 7], .takeMsg, .feed [2, 0], .takeMsg]).protocol.outcome :=
  ((driver_faithful echo [.feed [1, 0, 7], .takeMsg, .feed [2, 0], .takeMsg]).2.2.2
    [.feed [1, 0, 7], .feed [2, 0]] (by decide)).2

end Log

end Protocol
