import FrostZm.Client.Signing

/-!
# What signers sign and return

A signer signs the first package and returns the first signature that it is sent. The
coordinator signs its own package, and what it returns the library has verified.
-/

set_option linter.unusedSectionVars false

namespace Signing

open Relay Relay.RelayClient Collect Firsts

/-! ## Steps of a run -/

/-- A signature share was posted. -/
def Released (st : State) : Prop := ∃ p ∈ st.posts, ∃ m, p.body = .share m

/-- A step that neither signs nor changes the key of the client. -/
def Leaves {α : Type} (x : SignM α) : Prop :=
  ∀ st : State, (x st).2.client.encryptionKey = st.client.encryptionKey ∧ (x st).2.used = st.used

/-- A step that posts no share. -/
def Quiet {α : Type} (x : SignM α) : Prop := ∀ st : State, Released (x st).2 ↔ Released st

section Steps

variable {α β : Type} {x : SignM α} {f : α → SignM β} {st st' : State} {a : α} {b : β}

theorem bind_run (x : SignM α) (f : α → SignM β) (st : State) :
    (x >>= f) st = match x st with
      | (.ok a, st') => f a st'
      | (.error e, st') => (.error e, st') := rfl

theorem bind_run_ok : (x >>= f) st = (.ok b, st') ↔
    ∃ a st₁, x st = (.ok a, st₁) ∧ f a st₁ = (.ok b, st') := by
  rw [bind_run]
  rcases x st with ⟨_ | a, st₁⟩
  · simp
  · constructor
    · exact fun h => ⟨a, st₁, rfl, h⟩
    · rintro ⟨a, st₁, heq, h⟩
      obtain ⟨ha, rfl⟩ := Prod.mk.inj heq
      obtain rfl := Except.ok.inj ha
      exact h

theorem pure_run : (pure a : SignM α) st = (.ok a, st) := rfl

theorem fail_run (e : SignError) : (fail e : SignM α) st = (.error (.failed e), st) := rfl

theorem call_run_ok {error : Fault → SignError} {r : Result α} :
    call error r st = (.ok a, st') ↔ r = .ok a ∧ st' = st := by
  cases r with
  | ok v =>
    rw [call, pure_run, Prod.mk.injEq, Except.ok.injEq, Except.ok.injEq, eq_comm (a := st)]
  | error e => simp [call, fail_run]

theorem liftError_run_ok {r : Except SignError α} :
    liftError r st = (.ok a, st') ↔ r = .ok a ∧ st' = st := by
  cases r with
  | ok v =>
    rw [liftError, pure_run, Prod.mk.injEq, Except.ok.injEq, Except.ok.injEq, eq_comm (a := st)]
  | error e => simp [liftError, fail_run]

theorem Leaves.bind (hx : Leaves x) (hf : ∀ a, Leaves (f a)) : Leaves (x >>= f) := by
  intro st
  rw [bind_run]
  obtain ⟨hkey, hused⟩ := hx st
  rcases hrun : x st with ⟨_ | a, st₁⟩
  · rw [hrun] at hkey hused
    exact ⟨hkey, hused⟩
  · rw [hrun] at hkey hused
    obtain ⟨hkey', hused'⟩ := hf a st₁
    exact ⟨hkey'.trans hkey, hused'.trans hused⟩

theorem Leaves.of_ok (hx : Leaves x) (h : x st = (.ok a, st')) :
    st'.client.encryptionKey = st.client.encryptionKey ∧ st'.used = st.used := by
  have hst := hx st
  rwa [h] at hst

theorem Quiet.bind (hx : Quiet x) (hf : ∀ a, Quiet (f a)) : Quiet (x >>= f) := by
  intro st
  rw [bind_run]
  have h := hx st
  rcases hrun : x st with ⟨_ | a, st₁⟩
  · rw [hrun] at h
    exact h
  · rw [hrun] at h
    exact (hf a st₁).trans h

theorem Quiet.released (hx : Quiet x) (h : Released ((x >>= f) st).2) (hst : ¬ Released st) :
    ∃ a st₁, x st = (.ok a, st₁) ∧ Released (f a st₁).2 ∧ ¬ Released st₁ := by
  rw [bind_run] at h
  have hq := hx st
  rcases hrun : x st with ⟨_ | a, st₁⟩
  · rw [hrun] at h hq
    exact absurd (hq.mp h) hst
  · rw [hrun] at h hq
    exact ⟨a, st₁, rfl, h, fun h' => hst (hq.mp h')⟩

theorem leaves_pure : Leaves (pure a : SignM α) := fun _ => ⟨rfl, rfl⟩
theorem leaves_stop (s : Stop) : Leaves (stop s : SignM α) := fun _ => ⟨rfl, rfl⟩
theorem leaves_fail (e : SignError) : Leaves (fail e : SignM α) := leaves_stop _
theorem quiet_pure : Quiet (pure a : SignM α) := fun _ => Iff.rfl
theorem quiet_stop (s : Stop) : Quiet (stop s : SignM α) := fun _ => Iff.rfl
theorem quiet_fail (e : SignError) : Quiet (fail e : SignM α) := quiet_stop _

theorem leaves_call (error : Fault → SignError) (r : Result α) : Leaves (call error r) := by
  cases r with
  | ok a => exact leaves_pure
  | error e => exact leaves_fail _

theorem quiet_call (error : Fault → SignError) (r : Result α) : Quiet (call error r) := by
  cases r with
  | ok a => exact quiet_pure
  | error e => exact quiet_fail _

theorem leaves_liftError (r : Except SignError α) : Leaves (liftError r) := by
  cases r with
  | ok a => exact leaves_pure
  | error e => exact leaves_fail _

theorem quiet_liftError (r : Except SignError α) : Quiet (liftError r) := by
  cases r with
  | ok a => exact quiet_pure
  | error e => exact quiet_fail _

end Steps

/-! ## Requests -/

section Requests

variable {prims : Primitives} {network : Network} {messageID : GoString}
  {toParties : List GoString} {body : Body} {error : SignError} {st st' : State}

theorem leaves_send : Leaves (send network messageID toParties body error) := by
  intro st
  exact ⟨rfl, rfl⟩

theorem quiet_send (h : ∀ m, body ≠ .share m) :
    Quiet (send network messageID toParties body error) := by
  intro st
  simp [Released, send, h]

theorem leaves_waitForBarrier : Leaves (waitForBarrier network messageID error) := by
  unfold waitForBarrier
  split
  · exact leaves_pure
  · exact leaves_fail _

theorem quiet_waitForBarrier : Quiet (waitForBarrier network messageID error) := by
  unfold waitForBarrier
  split
  · exact quiet_pure
  · exact quiet_fail _

theorem gather_collected {Entry : Type} {unmarshal : GoString → Option Entry}
    {senderID : Entry → UInt16} {expected : Int} (st : Collect.State Entry) (polls : List Poll) :
    (gather prims unmarshal senderID expected st polls).map (Except.map Collect.State.collected) =
      collect prims unmarshal senderID expected st polls := by
  induction polls generalizing st with
  | nil =>
    unfold gather collect
    split <;> rfl
  | cons poll rest ih =>
    unfold gather collect
    split
    · cases poll with
      | cancelled => rfl
      | failed => rfl
      | messages l =>
        cases hfold : l.foldlM (takeMessage prims unmarshal senderID) st with
        | error e =>
          simp only [hfold]
          rfl
        | ok loop =>
          simp only [hfold]
          exact ih loop
    · rfl

theorem foldlM_takeMessage_key {Entry : Type} {unmarshal : GoString → Option Entry}
    {senderID : Entry → UInt16} {loop loop' : Collect.State Entry} {l : List Delivery}
    (h : l.foldlM (takeMessage prims unmarshal senderID) loop = .ok loop') :
    loop'.client.encryptionKey = loop.client.encryptionKey := by
  induction l generalizing loop with
  | nil =>
    obtain rfl := Except.ok.inj h
    rfl
  | cons d l ih =>
    rw [List.foldlM_cons] at h
    obtain ⟨loop₁, hd, h⟩ := bind_eq_ok.mp h
    obtain ⟨_, _, hkey, _⟩ := takeMessage_ok hd
    exact (ih h).trans hkey

theorem gather_key {Entry : Type} {unmarshal : GoString → Option Entry} {senderID : Entry → UInt16}
    {expected : Int} {loop loop' : Collect.State Entry} {polls : List Poll}
    (h : gather prims unmarshal senderID expected loop polls = some (.ok loop')) :
    loop'.client.encryptionKey = loop.client.encryptionKey := by
  induction polls generalizing loop with
  | nil =>
    unfold gather at h
    split at h
    · nomatch h
    · obtain rfl := Except.ok.inj (Option.some.inj h)
      rfl
  | cons poll rest ih =>
    unfold gather at h
    split at h
    · cases poll with
      | cancelled => nomatch h
      | failed => nomatch h
      | messages l =>
        dsimp only at h
        split at h
        · nomatch h
        · next loop₁ hfold => exact (ih h).trans (foldlM_takeMessage_key hfold)
    · obtain rfl := Except.ok.inj (Option.some.inj h)
      rfl

section Collecting

variable {Entry : Type} {unmarshal : GoString → Option Entry} {senderID : Entry → UInt16}
  {expected : Int} {error : CollectError → SignError} {l : List Entry}

theorem leaves_collectAll :
    Leaves (collectAll prims network unmarshal senderID messageID expected error) := by
  intro st
  unfold collectAll
  split
  · exact ⟨rfl, rfl⟩
  · exact ⟨rfl, rfl⟩
  · next loop hgather => exact ⟨gather_key hgather, rfl⟩

theorem quiet_collectAll :
    Quiet (collectAll prims network unmarshal senderID messageID expected error) := by
  intro st
  unfold collectAll
  split <;> exact Iff.rfl

theorem entriesOf_congr {client client' : RelayClient}
    (h : client'.encryptionKey = client.encryptionKey) (l : List Delivery) :
    entriesOf prims unmarshal client' l = entriesOf prims unmarshal client l := by
  unfold entriesOf
  simp only [entryOf_congr h]

theorem read_congr {client client' : RelayClient}
    (h : client'.encryptionKey = client.encryptionKey) {polls read : List Poll}
    (hread : Read prims unmarshal senderID client' expected polls read) :
    Read prims unmarshal senderID client expected polls read := by
  have hnamed : ∀ l, named prims unmarshal senderID client' l =
      named prims unmarshal senderID client l := by
    intro l
    rw [named_eq, entriesOf_congr h, ← named_eq]
  obtain ⟨hinitial, henough, hfirst⟩ := hread
  simp only [hnamed] at henough hfirst
  exact ⟨hinitial, henough, hfirst⟩

theorem collectAll_ok {client : RelayClient} (hkey : st.client.encryptionKey = client.encryptionKey)
    (h : collectAll prims network unmarshal senderID messageID expected error st = (.ok l, st')) :
    ∃ read, Read prims unmarshal senderID client expected (network.polls messageID) read ∧
      l = (firsts (fun e => senderID e.2)
        (entriesOf prims unmarshal client (read.flatMap Poll.deliveries))).map Prod.snd := by
  unfold collectAll at h
  split at h
  · cases (Prod.mk.inj h).1
  · cases (Prod.mk.inj h).1
  · next loop hgather =>
    obtain rfl := Except.ok.inj (Prod.mk.inj h).1
    have hcollect : collect prims unmarshal senderID expected ⟨st.client, [], []⟩
        (network.polls messageID) = some (.ok loop.collected) := by
      rw [← gather_collected, hgather]
      rfl
    obtain ⟨read, hread, heq, henough, hfirst⟩ := tracks_nil.collect hcollect
    simp only [List.nil_append] at heq henough hfirst
    rw [heq, length_firsts, ← named_eq] at henough
    refine ⟨read, read_congr hkey ⟨hread, henough, hfirst⟩, ?_⟩
    rw [heq, entriesOf_congr hkey]

end Collecting

/-- The first message of the polls. -/
def firstDelivery (polls : List Poll) : Option Delivery := (polls.flatMap Poll.deliveries).head?

theorem firstMessage_ok {client client' : RelayClient} {polls : List Poll} {text : GoString}
    (h : firstMessage prims client polls = some (.ok (text, client'))) :
    ∃ d, firstDelivery polls = some d ∧ client.verifyBody prims d.message = .ok text ∧
      client'.encryptionKey = client.encryptionKey := by
  induction polls with
  | nil => nomatch h
  | cons poll rest ih =>
    cases poll with
    | cancelled => nomatch h
    | failed => nomatch h
    | messages l =>
      cases l with
      | nil => exact ih h
      | cons d l =>
        refine ⟨d, rfl, ?_⟩
        unfold firstMessage at h
        rcases decryptAndVerify_cases prims client d.message with
          ⟨e, hcall⟩ | ⟨plaintext, c, hcall, hverify, hkey, -⟩
        · rw [hcall] at h
          nomatch h
        · rw [hcall] at h
          obtain ⟨rfl, rfl⟩ := Prod.mk.inj (Except.ok.inj (Option.some.inj h))
          exact ⟨hverify, hkey⟩

theorem leaves_waitForMessage {error : CollectError → SignError} :
    Leaves (waitForMessage prims network messageID error) := by
  intro st
  unfold waitForMessage
  split
  · exact ⟨rfl, rfl⟩
  · exact ⟨rfl, rfl⟩
  · next hfirst =>
    obtain ⟨_, _, _, hkey⟩ := firstMessage_ok hfirst
    exact ⟨hkey, rfl⟩

theorem quiet_waitForMessage {error : CollectError → SignError} :
    Quiet (waitForMessage prims network messageID error) := by
  intro st
  unfold waitForMessage
  split <;> exact Iff.rfl

theorem waitForMessage_ok {error : CollectError → SignError} {client : RelayClient}
    {text : GoString} (hkey : st.client.encryptionKey = client.encryptionKey)
    (h : waitForMessage prims network messageID error st = (.ok text, st')) :
    ∃ d, firstDelivery (network.polls messageID) = some d ∧
      client.verifyBody prims d.message = .ok text := by
  unfold waitForMessage at h
  split at h
  · nomatch (Prod.mk.inj h).1
  · nomatch (Prod.mk.inj h).1
  · next hfirst =>
    obtain rfl := Except.ok.inj (Prod.mk.inj h).1
    obtain ⟨d, hd, hverify, -⟩ := firstMessage_ok hfirst
    rw [verifyBody_congr hkey] at hverify
    exact ⟨d, hd, hverify⟩

end Requests

/-! ## The functions -/

section Functions

variable {prims : Primitives} {json : Json} {network : Network} {Nonces Rng : Type}
  {chain : Chain Nonces Rng} {phases : SignPhases} {party : Party} {client : RelayClient}
  {rng rng' : Rng} {nonces : Nonces} {enc sig : Bytes} {st st' : State} {coordinatorID : GoString}

/-- The first commitments of each id in the polls that were read, and one's own. -/
def commitmentsOf (prims : Primitives) (json : Json) (party : Party) (client : RelayClient)
    (own : Bytes) (read : List Poll) : List (UInt16 × GoString) :=
  let others := firsts (fun e : Delivery × CommitmentMessage => e.2.senderID)
    (entriesOf prims json.commitmentMessage client (read.flatMap Poll.deliveries))
  let commitMsg : CommitmentMessage := ⟨party.identifier, prims.base64Encode own⟩
  (others.map Prod.snd ++ [commitMsg]).map fun m => (m.senderID, m.commitment)

/-- The polls of the first round that a signer reads. -/
def ReadsCommitments (prims : Primitives) (json : Json) (network : Network) (phases : SignPhases)
    (party : Party) (client : RelayClient) (read : List Poll) : Prop :=
  Read prims json.commitmentMessage CommitmentMessage.senderID client party.expected
    (network.polls phases.commit) read

theorem commitRound_ok (hkey : st.client.encryptionKey = client.encryptionKey)
    (h : commitRound prims json network chain phases party rng st = (.ok (nonces, enc), st')) :
    ∃ own read entries, chain.signCommit rng = .ok (nonces, own) ∧
      ReadsCommitments prims json network phases party client read ∧
      mapEntries prims chain .decodeCommitment (commitmentsOf prims json party client own read) =
        .ok entries ∧ enc = encodeFields entries := by
  obtain ⟨⟨nonces', own⟩, st₁, hcommit, h₁⟩ := bind_run_ok.mp h
  obtain ⟨_, st₂, hsend, h₂⟩ := bind_run_ok.mp h₁
  obtain ⟨_, st₃, hbarrier, h₃⟩ := bind_run_ok.mp h₂
  obtain ⟨l, st₄, hcollect, h₄⟩ := bind_run_ok.mp h₃
  obtain ⟨entries, st₅, hentries, h₅⟩ := bind_run_ok.mp h₄
  obtain ⟨hdrawn, rfl⟩ := call_run_ok.mp hcommit
  obtain ⟨hencoded, rfl⟩ := liftError_run_ok.mp hentries
  obtain ⟨rfl, rfl⟩ := Prod.mk.inj (Except.ok.inj (Prod.mk.inj h₅).1)
  obtain ⟨hkey₂, -⟩ := leaves_send.of_ok hsend
  obtain ⟨hkey₃, -⟩ := leaves_waitForBarrier.of_ok hbarrier
  obtain ⟨read, hread, rfl⟩ := collectAll_ok ((hkey₃.trans hkey₂).trans hkey) hcollect
  exact ⟨own, read, entries, hdrawn, hread, hencoded, rfl⟩

theorem leaves_commitRound :
    Leaves (commitRound prims json network chain phases party rng) := by
  apply (leaves_call _ _).bind
  intro _
  apply leaves_send.bind
  intro _
  apply leaves_waitForBarrier.bind
  intro _
  apply leaves_collectAll.bind
  intro _
  apply (leaves_liftError _).bind
  intro _
  exact leaves_pure

theorem quiet_commitRound : Quiet (commitRound prims json network chain phases party rng) := by
  apply (quiet_call _ _).bind
  intro _
  apply (quiet_send fun m => by nofun).bind
  intro _
  apply quiet_waitForBarrier.bind
  intro _
  apply quiet_collectAll.bind
  intro _
  apply (quiet_liftError _).bind
  intro _
  exact quiet_pure

theorem leaves_afterSigning {share : Bytes} : Leaves (do
    send network phases.share [coordinatorID]
      (.share ⟨party.identifier, prims.base64Encode share⟩) .sendShare
    let text ← waitForMessage prims network phases.result .receiveSignature
    match prims.base64Decode text with
    | none => fail .decodeSignature
    | some signature => return signature) := by
  apply leaves_send.bind
  intro _
  apply leaves_waitForMessage.bind
  intro text
  split
  · exact leaves_fail _
  · exact leaves_pure

theorem released_runSigner (hkey : st.client.encryptionKey = client.encryptionKey)
    (hst : ¬ Released st)
    (h : Released (runSigner prims network chain phases party coordinatorID nonces enc st).2) :
    ∃ d text use, firstDelivery (network.polls phases.package) = some d ∧
      client.verifyBody prims d.message = .ok text ∧ chain.readPackage text = .ok use ∧
      (runSigner prims network chain phases party coordinatorID nonces enc st).2.used = some use := by
  unfold runSigner at h ⊢
  obtain ⟨text, st₁, hwait, h₁, hst₁⟩ := quiet_waitForMessage.released h hst
  obtain ⟨use, st₂, hread, h₂, hst₂⟩ := (quiet_liftError _).released h₁ hst₁
  have hquiet : Quiet (signWith chain use nonces) := fun st =>
    quiet_call SignError.sign (chain.sign use nonces) { st with used := some use }
  obtain ⟨share, st₃, hsign, h₃, -⟩ := hquiet.released h₂ hst₂
  obtain ⟨d, hd, hverify⟩ := waitForMessage_ok hkey hwait
  obtain ⟨-, rfl⟩ := call_run_ok.mp hsign
  rw [bind_run, hwait]
  dsimp only
  rw [bind_run, hread]
  dsimp only
  rw [bind_run, hsign]
  dsimp only
  obtain ⟨hdecoded, -⟩ := liftError_run_ok.mp hread
  exact ⟨d, text, use, hd, hverify, hdecoded, (leaves_afterSigning _).2⟩

theorem runSigner_ok (hkey : st.client.encryptionKey = client.encryptionKey)
    (h : runSigner prims network chain phases party coordinatorID nonces enc st = (.ok sig, st')) :
    ∃ d text use d' text', firstDelivery (network.polls phases.package) = some d ∧
      client.verifyBody prims d.message = .ok text ∧ chain.readPackage text = .ok use ∧
      firstDelivery (network.polls phases.result) = some d' ∧
      client.verifyBody prims d'.message = .ok text' ∧ prims.base64Decode text' = some sig ∧
      st'.used = some use := by
  obtain ⟨text, st₁, hwait, h₁⟩ := bind_run_ok.mp h
  obtain ⟨use, st₂, hread, h₂⟩ := bind_run_ok.mp h₁
  obtain ⟨share, st₃, hsign, h₃⟩ := bind_run_ok.mp h₂
  obtain ⟨_, st₄, hsend, h₄⟩ := bind_run_ok.mp h₃
  obtain ⟨text', st₅, hwait', h₅⟩ := bind_run_ok.mp h₄
  obtain ⟨d, hd, hverify⟩ := waitForMessage_ok hkey hwait
  obtain ⟨hkey₁, -⟩ := leaves_waitForMessage.of_ok hwait
  obtain ⟨hdecoded, rfl⟩ := liftError_run_ok.mp hread
  obtain ⟨-, rfl⟩ := call_run_ok.mp hsign
  obtain ⟨hkey₄, hused₄⟩ := leaves_send.of_ok hsend
  obtain ⟨-, hused₅⟩ := leaves_waitForMessage.of_ok hwait'
  obtain ⟨d', hd', hverify'⟩ := waitForMessage_ok ((hkey₄.trans hkey₁).trans hkey) hwait'
  cases hsig : prims.base64Decode text' with
  | none =>
    rw [hsig] at h₅
    nomatch (Prod.mk.inj h₅).1
  | some signature =>
    rw [hsig] at h₅
    obtain ⟨hok, rfl⟩ := Prod.mk.inj h₅
    obtain rfl := Except.ok.inj hok
    exact ⟨d, text, use, d', text', hd, hverify, hdecoded, hd', hverify', hsig, hused₅.trans hused₄⟩

theorem runCoordinator_ok
    (h : runCoordinator prims json network chain phases party nonces enc rng' st = (.ok sig, st')) :
    ∃ use shares, chain.newPackage enc rng' = .ok use ∧ chain.aggregate use shares = .ok sig ∧
      st'.used = some use := by
  obtain ⟨use, st₁, hpackage, h₁⟩ := bind_run_ok.mp h
  obtain ⟨_, st₂, hsend, h₂⟩ := bind_run_ok.mp h₁
  obtain ⟨share, st₃, hsign, h₃⟩ := bind_run_ok.mp h₂
  obtain ⟨l, st₄, hcollect, h₄⟩ := bind_run_ok.mp h₃
  obtain ⟨myID, st₅, hid, h₅⟩ := bind_run_ok.mp h₄
  obtain ⟨entries, st₆, hentries, h₆⟩ := bind_run_ok.mp h₅
  obtain ⟨signature, st₇, haggregate, h₇⟩ := bind_run_ok.mp h₆
  obtain ⟨_, st₈, hresult, h₈⟩ := bind_run_ok.mp h₇
  obtain ⟨hmade, rfl⟩ := call_run_ok.mp hpackage
  obtain ⟨-, rfl⟩ := call_run_ok.mp hsign
  obtain ⟨-, hused₄⟩ := leaves_collectAll.of_ok hcollect
  obtain ⟨-, rfl⟩ := liftError_run_ok.mp hid
  obtain ⟨-, rfl⟩ := liftError_run_ok.mp hentries
  obtain ⟨hadded, rfl⟩ := call_run_ok.mp haggregate
  obtain ⟨-, hused₈⟩ := leaves_send.of_ok hresult
  obtain ⟨hok, rfl⟩ := Prod.mk.inj h₈
  obtain rfl := Except.ok.inj hok
  exact ⟨use, _, hmade, hadded, hused₈.trans hused₄⟩

theorem quiet_runCoordinator :
    Quiet (runCoordinator prims json network chain phases party nonces enc rng') := by
  apply (quiet_call _ _).bind
  intro use
  apply (quiet_send fun m => by nofun).bind
  intro _
  refine Quiet.bind (fun st =>
    quiet_call SignError.sign (chain.sign use nonces) { st with used := some use }) ?_
  intro _
  apply quiet_collectAll.bind
  intro _
  apply (quiet_liftError _).bind
  intro _
  apply (quiet_liftError _).bind
  intro _
  apply (quiet_call _ _).bind
  intro _
  apply (quiet_send fun m => by nofun).bind
  intro _
  exact quiet_pure

end Functions

end Signing
