import FrostZm.Ffi.Codec
import FrostZm.Lib.Proc

/-!
# The relay channel

A ceremony is an asynchronous function over one `FrostChannel`. An outgoing frame
starts with its recipient (zero for everyone), an incoming one with its sender.
-/

/-- The body of a session: it reads frames of the inbox and writes frames to the outbox. -/
abbrev Ceremony (α : Type) := Proc Fault Bytes Bytes α

/-! ## Frames -/

def readRecipient (msg : Bytes) : UInt16 := if msg.length < 2 then 0 else u16FromLeBytes (msg.take 2)
def payload (msg : Bytes) : Bytes := if msg.length < 2 then msg else msg.drop 2
def wrapSender (senderId : UInt16) (data : Bytes) : Bytes := u16ToLeBytes senderId ++ data

/-- What `FrostChannel::recv` makes of one frame. -/
def unframe (frame : Bytes) : UInt16 × Bytes :=
  if frame.length < 2 then (0, frame) else (u16FromLeBytes (frame.take 2), frame.drop 2)

theorem length_addressed (r : UInt16) (data : Bytes) : ¬ (u16ToLeBytes r ++ data).length < 2 := by
  rw [List.length_append, length_u16ToLeBytes]
  omega

@[simp] theorem unframe_wrapSender (s : UInt16) (data : Bytes) :
    unframe (wrapSender s data) = (s, data) := by
  unfold unframe wrapSender
  rw [if_neg (length_addressed s data), List.take_left' (length_u16ToLeBytes s),
    List.drop_left' (length_u16ToLeBytes s), u16FromLeBytes_toLeBytes]

@[simp] theorem readRecipient_append (r : UInt16) (data : Bytes) :
    readRecipient (u16ToLeBytes r ++ data) = r := by
  unfold readRecipient
  rw [if_neg (length_addressed r data), List.take_left' (length_u16ToLeBytes r),
    u16FromLeBytes_toLeBytes]

@[simp] theorem payload_append (r : UInt16) (data : Bytes) :
    payload (u16ToLeBytes r ++ data) = data := by
  unfold payload
  rw [if_neg (length_addressed r data), List.drop_left' (length_u16ToLeBytes r)]

/-! ## The channel -/

namespace FrostChannel

def broadcast (data : Bytes) : Ceremony Unit := Proc.output (u16ToLeBytes 0 ++ data)
def sendTo (recipient : UInt16) (data : Bytes) : Ceremony Unit :=
  Proc.output (u16ToLeBytes recipient ++ data)

def recv : Ceremony (UInt16 × Bytes) := do
  let frame ← Proc.input
  return unframe frame

/-- `for _ in 0..n { let (sender, data) = ch.recv().await; .. }` -/
def recvEach {σ : Type} (n : Nat) (s : σ) (step : σ → UInt16 × Bytes → Result σ) : Ceremony σ :=
  Proc.collect (fun s frame => step s (unframe frame)) n s

/-- The frame in which the relay hands a message to a session. -/
def frame (m : UInt16 × Bytes) : Bytes := wrapSender m.1 m.2

@[simp] theorem unframe_frame (m : UInt16 × Bytes) : unframe (frame m) = m := by
  rw [frame, unframe_wrapSender]

theorem foldlM_frames {σ : Type} (step : σ → UInt16 × Bytes → Result σ) (s : σ)
    (l : List (UInt16 × Bytes)) :
    (l.map frame).foldlM (fun s f => step s (unframe f)) s = l.foldlM step s := by
  simp [List.foldlM_map]

end FrostChannel

/-! ## The session driver -/

/-- The state of a session: its task until it is ready, and then its outcome. -/
structure Protocol (α : Type) where
  task : Option (Ceremony α)
  outcome : Option (Result α)
  inbox : List Bytes
  outbox : List Bytes

namespace Protocol

variable {α : Type}

/-- Polls a task: it takes frames from the inbox until it is ready or the inbox is empty. -/
def poll : Ceremony α → List Bytes → Protocol α
  | .ret a, inbox => { task := none, outcome := some (.ok a), inbox, outbox := [] }
  | .fail e, inbox => { task := none, outcome := some (.error e), inbox, outbox := [] }
  | .emit o p, inbox => let q := poll p inbox; { q with outbox := o :: q.outbox }
  | .recv k, [] => { task := some (.recv k), outcome := none, inbox := [], outbox := [] }
  | .recv k, frame :: inbox => poll (k frame) inbox

def advance (p : Protocol α) : Bool × Protocol α :=
  match p.task with
  | none => (true, p)
  | some task =>
    let q := poll task p.inbox
    (q.outcome.isSome, { q with outbox := p.outbox ++ q.outbox })

def start (init : Ceremony α) : Protocol α :=
  (advance { task := some init, outcome := none, inbox := [], outbox := [] }).2

def feed (p : Protocol α) (msg : Bytes) : Bool × Protocol α :=
  if p.outcome.isSome then (true, p) else advance { p with inbox := p.inbox ++ [msg] }

def takeMsg (p : Protocol α) : Option Bytes × Protocol α :=
  match p.outbox with
  | [] => (none, p)
  | m :: rest => (some m, { p with outbox := rest })

def result (p : Protocol α) : Option (Result α) × Protocol α :=
  (p.outcome, { p with task := none, outcome := none })

/-! ### A session does what its body does on the frames fed so far -/

/-- The session has run `body` on the frames `fed`, and `taken` are the messages that
were already taken from it. -/
structure Tracks (body : Ceremony α) (fed taken : List Bytes) (p : Protocol α) : Prop where
  outcome : p.outcome = (body.eval fed).map Prod.fst
  outbox : taken ++ p.outbox = body.outs fed
  pending : p.outcome = none → p.inbox = [] ∧ ∃ task, p.task = some task ∧
    ∀ t, task.eval t = body.eval (fed ++ t) ∧ body.outs (fed ++ t) = body.outs fed ++ task.outs t

theorem tracks_poll (body : Ceremony α) (inbox : List Bytes) : Tracks body inbox [] (poll body inbox) := by
  induction body generalizing inbox with
  | ret a => exact ⟨rfl, rfl, nofun⟩
  | fail e => exact ⟨rfl, rfl, nofun⟩
  | emit o p ih =>
    obtain ⟨h₁, h₂, h₃⟩ := ih inbox
    refine ⟨h₁, congrArg (o :: ·) h₂, fun h => ?_⟩
    obtain ⟨hi, task, ht, hrun⟩ := h₃ h
    refine ⟨hi, task, ht, fun t => ⟨(hrun t).1, ?_⟩⟩
    simp [(hrun t).2]
  | recv k ih =>
    cases inbox with
    | nil => exact ⟨rfl, rfl, fun _ => ⟨rfl, .recv k, rfl, fun t => ⟨rfl, rfl⟩⟩⟩
    | cons frame inbox =>
      obtain ⟨h₁, h₂, h₃⟩ := ih frame inbox
      exact ⟨h₁, h₂, h₃⟩

theorem tracks_start (body : Ceremony α) : Tracks body [] [] (start body) := by
  simpa [start, advance] using tracks_poll body []

theorem Tracks.feed {body : Ceremony α} {fed taken : List Bytes} {p : Protocol α}
    (h : Tracks body fed taken p) (msg : Bytes) :
    Tracks body (fed ++ [msg]) taken (p.feed msg).2 := by
  cases hout : p.outcome with
  | some x =>
    -- a session with an outcome ignores the frame, and so does its body
    obtain ⟨⟨y, r⟩, hy, hx⟩ := Option.map_eq_some_iff.mp (h.outcome ▸ hout)
    have hfeed : (p.feed msg).2 = p := by simp [Protocol.feed, hout]
    rw [hfeed]
    refine ⟨?_, ?_, fun hn => ?_⟩
    · rw [hout, Proc.eval_append hy]
      exact congrArg some hx.symm
    · rw [Proc.outs_append_of_done hy, h.outbox]
    · simp [hn] at hout
  | none =>
    obtain ⟨hin, task, htask, hrun⟩ := h.pending hout
    have hfeed : (p.feed msg).2 =
        { poll task [msg] with outbox := p.outbox ++ (poll task [msg]).outbox } := by
      simp [Protocol.feed, hout, advance, htask, hin]
    obtain ⟨h₁, h₂, h₃⟩ := tracks_poll task [msg]
    rw [hfeed]
    refine ⟨?_, ?_, fun hn => ?_⟩
    · rw [← (hrun [msg]).1]
      exact h₁
    · rw [(hrun [msg]).2, ← h₂, ← h.outbox]
      simp
    · obtain ⟨hi, next, hnext, hrun'⟩ := h₃ hn
      refine ⟨hi, next, hnext, fun t => ⟨?_, ?_⟩⟩
      · rw [(hrun' t).1, (hrun _).1, List.append_assoc]
      · rw [List.append_assoc, (hrun _).2, (hrun' t).2, (hrun _).2, List.append_assoc]

theorem Tracks.takeMsg {body : Ceremony α} {fed taken : List Bytes} {p q : Protocol α} {m : Bytes}
    (h : Tracks body fed taken p) (hm : p.takeMsg = (some m, q)) :
    Tracks body fed (taken ++ [m]) q := by
  unfold Protocol.takeMsg at hm
  split at hm
  · simp at hm
  · next m' rest hbox =>
    simp only [Prod.mk.injEq, Option.some.injEq] at hm
    obtain ⟨rfl, rfl⟩ := hm
    refine ⟨h.outcome, ?_, h.pending⟩
    rw [← h.outbox, hbox, List.append_assoc]
    rfl

end Protocol
