import FrostZm.Client.Relay
import FrostZm.Ffi.Codec
import Mathlib.Data.Finset.Card
import Mathlib.Data.Finset.Basic
import Mathlib.Data.List.Infix

/-!
# The blame exchange

After a failed ceremony every party tells the others whom it blames, collects what they tell,
and takes the verdict of the majority.
-/

abbrev BlameType := GoString

def BlameCrypto : BlameType := ascii "crypto"
def BlameAbsent : BlameType := ascii "absent"
def BlameUnknown : BlameType := ascii "unknown"

structure BlameReport where
  reporter : GoString
  blameType : BlameType
  blamedParty : GoString
  blamedID : UInt16
  round : GoString
  errorCode : Int
deriving DecidableEq

structure BlameResult where
  agreed : Bool
  blamedParty : GoString
  blameType : BlameType
  reports : List BlameReport
deriving DecidableEq

namespace BlameExchange

/-! ## The report of one party -/

/-- `BuildPartyIdentifierMap` over the sorted parties. The numbers wrap. -/
def partyIdentifierMap (sorted : List GoString) (id : UInt16) : Option GoString :=
  (sorted.zipIdx.reverse.find? fun e => UInt16.ofNat (e.2 + 1) = id).map Prod.fst

/-- The report that `HandleBlame` exchanges. `blamedID` is what `LastBlamedParty` returned. -/
def handleBlameReport (partyID : GoString) (sorted : List GoString) (sessionErr : GoString)
    (blamedID : UInt16) : BlameReport :=
  if blamedID > 0 then
    ⟨partyID, BlameCrypto, (partyIdentifierMap sorted blamedID).getD [], blamedID, [], 0⟩
  else if ascii "context" <:+: sessionErr then ⟨partyID, BlameAbsent, [], 0, [], 0⟩
  else ⟨partyID, BlameUnknown, [], 0, [], 0⟩

/-! ## The exchange -/

/-- A message of a poll: its sender, and the report in it if `DecryptAndVerify` accepts it and
it decodes. -/
structure Delivery where
  fromParty : GoString
  report : Option BlameReport

/-- What one turn of the loop finds. -/
inductive Poll where
  | done
  | failed
  | messages (l : List Delivery)

inductive ExchangeError where
  | sendReport
  | barrier
deriving DecidableEq

def expectedResponders (allParties : List GoString) (myReport : BlameReport) : Int :=
  if myReport.blameType = BlameAbsent ∧ myReport.blamedParty ≠ [] then
    max 1 ((allParties.length : Int) - 2)
  else (allParties.length : Int) - 1

def Delivery.counted (d : Delivery) : Option (GoString × BlameReport) :=
  d.report.map fun r => (d.fromParty, r)

/-- The reports that the loop adds to one's own, each with the sender that it came from. The
code keeps the report alone. -/
def collect (expected : Int) (received : List (GoString × BlameReport)) :
    List Poll → Option (List (GoString × BlameReport))
  | [] => none
  | .done :: _ => some received
  | .failed :: _ => some received
  | .messages l :: rest =>
    let received := received ++ l.filterMap Delivery.counted
    if (received.length : Int) + 1 ≥ expected + 1 then some received
    else collect expected received rest

def count (party : GoString) (reports : List BlameReport) : Nat :=
  reports.countP fun r => r.blamedParty = party

def typeForParty (party : GoString) (reports : List BlameReport) : BlameType :=
  ((reports.filter fun r => r.blamedParty = party).getLast?.map BlameReport.blameType).getD []

/-- The keys of `counts`. The code ranges over them in any order, `majority_unique` says that
it makes no difference. -/
def blamedParties (reports : List BlameReport) : List GoString :=
  ((reports.map BlameReport.blamedParty).filter fun p => p ≠ []).dedup

def tallyBlame (reports : List BlameReport) : BlameResult :=
  let majority := reports.length / 2 + 1
  match (blamedParties reports).find? fun p => count p reports ≥ majority with
  | some party => ⟨true, party, typeForParty party reports, reports⟩
  | none => ⟨false, [], [], reports⟩

/-- `ExchangeBlame`. `sent` and `ready` say whether the own report was sent and whether the
barrier was passed. A run that has not ended has no result. -/
def exchangeBlame (allParties : List GoString) (myReport : BlameReport) (sent ready : Bool)
    (polls : List Poll) : Option (Except ExchangeError BlameResult) :=
  if sent = false then some (.error .sendReport)
  else if ready = false then some (.error .barrier)
  else
    (collect (expectedResponders allParties myReport) [] polls).map fun received =>
      .ok (tallyBlame (myReport :: received.map Prod.snd))

/-! ## The tally -/

variable {reports : List BlameReport} {p q : GoString}

theorem count_add_count_le (hne : p ≠ q) : count p reports + count q reports ≤ reports.length := by
  induction reports with
  | nil => simp [count]
  | cons r rest ih =>
    unfold count at ih ⊢
    rw [List.countP_cons, List.countP_cons, List.length_cons]
    by_cases hp : r.blamedParty = p
    · have hq : r.blamedParty ≠ q := fun h => hne (hp.symm.trans h)
      simp only [hp, hne, decide_true, decide_false, if_true, Bool.false_eq_true, if_false]
      omega
    · simp only [hp, decide_false, Bool.false_eq_true, if_false]
      split
      · omega
      · omega

theorem majority_unique (hp : count p reports ≥ reports.length / 2 + 1)
    (hq : count q reports ≥ reports.length / 2 + 1) : p = q := by
  by_contra hne
  have hle : count p reports + count q reports ≤ reports.length := count_add_count_le hne
  omega

theorem mem_blamedParties : p ∈ blamedParties reports ↔ p ≠ [] ∧ ∃ r ∈ reports, r.blamedParty = p := by
  unfold blamedParties
  rw [List.mem_dedup, List.mem_filter, List.mem_map, decide_eq_true_eq, and_comm]

theorem exists_of_count_pos (h : 0 < count p reports) : ∃ r ∈ reports, r.blamedParty = p := by
  obtain ⟨r, hr, hp⟩ := List.countP_pos_iff.mp h
  exact ⟨r, hr, of_decide_eq_true hp⟩

theorem tallyBlame_agreed_iff : (tallyBlame reports).agreed = true ∧
    (tallyBlame reports).blamedParty = p ↔ p ≠ [] ∧ reports.length < 2 * count p reports := by
  cases hfind : (blamedParties reports).find? fun p => count p reports ≥ reports.length / 2 + 1 with
  | some party =>
    have hmem := List.mem_of_find?_eq_some hfind
    have hcount := List.find?_some hfind
    rw [decide_eq_true_eq] at hcount
    have htally : tallyBlame reports = ⟨true, party, typeForParty party reports, reports⟩ := by
      simp only [tallyBlame, hfind]
    rw [htally]
    simp only [true_and]
    constructor
    · rintro rfl
      exact ⟨(mem_blamedParties.mp hmem).1, by omega⟩
    · rintro ⟨-, hp⟩
      exact majority_unique hcount (by omega)
  | none =>
    have htally : tallyBlame reports = ⟨false, [], [], reports⟩ := by
      simp only [tallyBlame, hfind]
    rw [htally]
    rw [List.find?_eq_none] at hfind
    simp only [Bool.false_eq_true, false_and, false_iff, not_and]
    intro hne hp
    apply hfind p
    · exact mem_blamedParties.mpr ⟨hne, exists_of_count_pos (by omega)⟩
    · rw [decide_eq_true_eq]
      omega

/-! ## Who stands behind a verdict -/

/-- The sender reported the party: with the own report, or with one that was counted. -/
def Reported (partyID : GoString) (myReport : BlameReport)
    (received : List (GoString × BlameReport)) (party sender : GoString) : Prop :=
  (sender = partyID ∧ myReport.blamedParty = party) ∨
    ∃ d ∈ received, d.1 = sender ∧ d.2.blamedParty = party

instance (partyID : GoString) (myReport : BlameReport) (received : List (GoString × BlameReport))
    (party sender : GoString) : Decidable (Reported partyID myReport received party sender) :=
  inferInstanceAs (Decidable (_ ∨ _))

/-- If the run ends with a verdict, more than half of the members reported the party. -/
def RealMajority (allParties : List GoString) (partyID : GoString) (myReport : BlameReport)
    (polls : List Poll) : Prop :=
  ∀ received result, collect (expectedResponders allParties myReport) [] polls = some received →
    exchangeBlame allParties myReport true true polls = some (.ok result) → result.agreed = true →
    allParties.toFinset.card < 2 * (allParties.toFinset.filter
      (Reported partyID myReport received result.blamedParty)).card

/-- The same messages but for what their reports say. -/
def Delivery.erase (d : Delivery) : GoString × Bool := (d.fromParty, d.report.isSome)

inductive Outline where
  | done
  | failed
  | messages (l : List (GoString × Bool))

def Poll.erase : Poll → Outline
  | .done => .done
  | .failed => .failed
  | .messages l => .messages (l.map Delivery.erase)

/-- The senders whose reports can count for a party: oneself only with a report that names
one. -/
def voters (partyID : GoString) (myReport : BlameReport) (senders : List GoString) :
    List GoString :=
  if myReport.blamedParty = [] then senders else partyID :: senders

/-- No group with at most half of the members in it sent more than half of the reports. -/
def NoLoudMinority (allParties : List GoString) (partyID : GoString) (myReport : BlameReport)
    (senders : List GoString) : Prop :=
  ∀ group : Finset GoString,
    senders.length + 1 < 2 * (voters partyID myReport senders).countP (· ∈ group) →
      allParties.toFinset.card < 2 * (allParties.toFinset ∩ group).card

variable {allParties : List GoString} {partyID : GoString} {myReport : BlameReport}
  {polls polls' : List Poll}

/-- The senders of the reports that the loop counts. -/
def collectSenders (expected : Int) (senders : List GoString) : List Outline → Option (List GoString)
  | [] => none
  | .done :: _ => some senders
  | .failed :: _ => some senders
  | .messages l :: rest =>
    let senders := senders ++ (l.filter Prod.snd).map Prod.fst
    if (senders.length : Int) + 1 ≥ expected + 1 then some senders
    else collectSenders expected senders rest

theorem map_counted (l : List Delivery) : (l.filterMap Delivery.counted).map Prod.fst =
    ((l.map Delivery.erase).filter Prod.snd).map Prod.fst := by
  induction l with
  | nil => rfl
  | cons d l ih =>
    obtain ⟨sender, report⟩ := d
    cases report with
    | none =>
      rw [List.filterMap_cons_none rfl, ih]
      rfl
    | some r =>
      have hsome : Delivery.counted ⟨sender, some r⟩ = some (sender, r) := rfl
      rw [List.filterMap_cons_some hsome, List.map_cons, ih]
      rfl

theorem collect_senders (expected : Int) (received : List (GoString × BlameReport))
    (polls : List Poll) :
    (collect expected received polls).map (List.map Prod.fst) =
      collectSenders expected (received.map Prod.fst) (polls.map Poll.erase) := by
  induction polls generalizing received with
  | nil => rfl
  | cons poll polls ih =>
    cases poll with
    | done => rfl
    | failed => rfl
    | messages l =>
      rw [List.map_cons, Poll.erase, collect, collectSenders, ← map_counted, ← List.map_append,
        List.length_map]
      split
      · rfl
      · exact ih _

/-- The run in which the senders of a group name a party and all others name nobody. -/
def Delivery.rename (group : Finset GoString) (party : GoString) (d : Delivery) : Delivery :=
  { d with report := d.report.map fun r =>
      { r with blamedParty := if d.fromParty ∈ group then party else [] } }

def Poll.rename (group : Finset GoString) (party : GoString) : Poll → Poll
  | .done => .done
  | .failed => .failed
  | .messages l => .messages (l.map (Delivery.rename group party))

theorem erase_rename (group : Finset GoString) (party : GoString) (polls : List Poll) :
    (polls.map (Poll.rename group party)).map Poll.erase = polls.map Poll.erase := by
  rw [List.map_map]
  apply List.map_congr_left
  rintro poll -
  cases poll with
  | done => rfl
  | failed => rfl
  | messages l =>
    simp only [Function.comp_apply, Poll.rename, Poll.erase, List.map_map, Outline.messages.injEq]
    apply List.map_congr_left
    rintro d -
    simp [Delivery.erase, Delivery.rename]

theorem collect_renamed (group : Finset GoString) (party : GoString) {expected : Int}
    {received out : List (GoString × BlameReport)}
    (hreceived : ∀ d ∈ received, d.2.blamedParty = if d.1 ∈ group then party else [])
    (h : collect expected received (polls.map (Poll.rename group party)) = some out) :
    ∀ d ∈ out, d.2.blamedParty = if d.1 ∈ group then party else [] := by
  induction polls generalizing received with
  | nil => nomatch h
  | cons poll polls ih =>
    cases poll with
    | done => exact Option.some.inj h ▸ hreceived
    | failed => exact Option.some.inj h ▸ hreceived
    | messages l =>
      have hnext : ∀ d ∈ received ++ (l.map (Delivery.rename group party)).filterMap Delivery.counted,
          d.2.blamedParty = if d.1 ∈ group then party else [] := by
        intro d hd
        rcases List.mem_append.mp hd with hd | hd
        · exact hreceived d hd
        · obtain ⟨d', hd', hcounted⟩ := List.mem_filterMap.mp hd
          obtain ⟨d₀, -, rfl⟩ := List.mem_map.mp hd'
          simp only [Delivery.counted, Delivery.rename, Option.map_map, Option.map_eq_some_iff] at hcounted
          obtain ⟨r, -, rfl⟩ := hcounted
          rfl
      rw [List.map_cons, Poll.rename, collect] at h
      split at h
      · exact Option.some.inj h ▸ hnext
      · exact ih hnext h

theorem exchange_of_collect {received : List (GoString × BlameReport)}
    (h : collect (expectedResponders allParties myReport) [] polls = some received) :
    exchangeBlame allParties myReport true true polls =
      some (.ok (tallyBlame (myReport :: received.map Prod.snd))) := by
  simp only [exchangeBlame, h, Bool.true_eq_false, if_false, Option.map_some]

theorem count_cons (party : GoString) (received : List (GoString × BlameReport)) :
    count party (myReport :: received.map Prod.snd) =
      received.countP (fun d => d.2.blamedParty = party) +
        if myReport.blamedParty = party then 1 else 0 := by
  unfold count
  rw [List.countP_cons, List.countP_map]
  simp only [decide_eq_true_eq]
  rfl

theorem countP_voters (group : Finset GoString) (senders : List GoString) :
    (voters partyID myReport senders).countP (· ∈ group) = senders.countP (· ∈ group) +
      if myReport.blamedParty ≠ [] ∧ partyID ∈ group then 1 else 0 := by
  unfold voters
  split
  · next hnil => simp [hnil]
  · next hne =>
    rw [List.countP_cons]
    simp [hne]

/-- What a loud minority says becomes the verdict. -/
theorem noLoudMinority_of_real {received : List (GoString × BlameReport)}
    (hreceived : collect (expectedResponders allParties myReport) [] polls = some received)
    (h : ∀ polls', polls'.map Poll.erase = polls.map Poll.erase →
      RealMajority allParties partyID myReport polls') :
    NoLoudMinority allParties partyID myReport (received.map Prod.fst) := by
  intro group hloud
  obtain ⟨party, hparty, hown⟩ : ∃ party : GoString, party ≠ [] ∧
      (myReport.blamedParty = party ↔ myReport.blamedParty ≠ [] ∧ partyID ∈ group) := by
    by_cases hown : myReport.blamedParty ≠ [] ∧ partyID ∈ group
    · exact ⟨myReport.blamedParty, hown.1, by simp [hown]⟩
    · refine ⟨0 :: myReport.blamedParty, List.cons_ne_nil _ _, ?_⟩
      simp only [hown, iff_false]
      exact fun heq => List.cons_ne_self _ _ heq.symm
  set polls' := polls.map (Poll.rename group party)
  have herase : polls'.map Poll.erase = polls.map Poll.erase := erase_rename group party polls
  have hsenders := collect_senders (expectedResponders allParties myReport) [] polls'
  rw [herase, ← collect_senders, hreceived] at hsenders
  obtain ⟨renamed, hrenamed, hfst⟩ := Option.map_eq_some_iff.mp hsenders
  have hnames : ∀ d ∈ renamed, d.2.blamedParty = if d.1 ∈ group then party else [] :=
    collect_renamed group party (List.forall_mem_nil _) hrenamed
  have hcount : count party (myReport :: renamed.map Prod.snd) =
      (voters partyID myReport (received.map Prod.fst)).countP (· ∈ group) := by
    rw [count_cons, countP_voters, ← hfst, List.countP_map]
    congr 1
    · apply List.countP_congr
      intro d hd
      rw [hnames d hd]
      by_cases hin : d.1 ∈ group
      · simp [hin]
      · simp [hin, hparty.symm]
    · simp only [hown]
  have hagreed := tallyBlame_agreed_iff.mpr ⟨hparty, show
    (myReport :: renamed.map Prod.snd).length < 2 * count party (myReport :: renamed.map Prod.snd) by
      have hlen := congrArg List.length hfst
      simp only [List.length_map] at hlen hloud
      rw [hcount, List.length_cons, List.length_map, hlen]
      exact hloud⟩
  have hreal := h polls' herase renamed _ hrenamed (exchange_of_collect hrenamed) hagreed.1
  rw [hagreed.2] at hreal
  refine hreal.trans_le (Nat.mul_le_mul_left 2 (Finset.card_le_card ?_))
  intro sender hmem
  obtain ⟨hmember, hreported⟩ := Finset.mem_filter.mp hmem
  refine Finset.mem_inter.mpr ⟨hmember, ?_⟩
  rcases hreported with ⟨rfl, hself⟩ | ⟨d, hd, rfl, hblamed⟩
  · exact (hown.mp hself).2
  · rw [hnames d hd] at hblamed
    by_contra hout
    rw [if_neg hout] at hblamed
    exact hparty hblamed.symm

theorem real_of_noLoudMinority
    (h : ∀ received, collect (expectedResponders allParties myReport) [] polls = some received →
      NoLoudMinority allParties partyID myReport (received.map Prod.fst)) :
    RealMajority allParties partyID myReport polls := by
  intro received result hreceived hresult hagreed
  rw [exchange_of_collect hreceived, Option.some_inj, Except.ok.injEq] at hresult
  subst hresult
  set party := (tallyBlame (myReport :: received.map Prod.snd)).blamedParty with hparty
  obtain ⟨hne, hmajority⟩ := tallyBlame_agreed_iff.mp ⟨hagreed, hparty.symm⟩
  rw [count_cons, List.length_cons, List.length_map] at hmajority
  set own : Finset GoString := if myReport.blamedParty = party then {partyID} else ∅ with hown
  set group : Finset GoString :=
    ((received.filter fun d => d.2.blamedParty = party).map Prod.fst).toFinset ∪ own with hgroup
  have hloud := h received hreceived group ?_
  · refine hloud.trans_le (Nat.mul_le_mul_left 2 (Finset.card_le_card ?_))
    intro sender hmem
    obtain ⟨hmember, hin⟩ := Finset.mem_inter.mp hmem
    refine Finset.mem_filter.mpr ⟨hmember, ?_⟩
    rcases Finset.mem_union.mp hin with hin | hin
    · obtain ⟨d, hd, rfl⟩ := List.mem_map.mp (List.mem_toFinset.mp hin)
      rw [List.mem_filter, decide_eq_true_eq] at hd
      exact .inr ⟨d, hd.1, rfl, hd.2⟩
    · rw [hown] at hin
      split at hin
      · next hself => exact .inl ⟨Finset.mem_singleton.mp hin, hself⟩
      · simp at hin
  · rw [List.length_map, countP_voters, List.countP_map]
    have hle : received.countP (fun d => d.2.blamedParty = party) ≤
        received.countP ((fun s => decide (s ∈ group)) ∘ Prod.fst) := by
      apply List.countP_mono_left
      intro d hd hnamed
      simp only [Function.comp_apply, decide_eq_true_eq] at hnamed ⊢
      apply Finset.mem_union_left
      rw [List.mem_toFinset]
      exact List.mem_map.mpr ⟨d, List.mem_filter.mpr ⟨hd, decide_eq_true hnamed⟩, rfl⟩
    by_cases hself : myReport.blamedParty = party
    · rw [if_pos hself] at hmajority
      rw [if_pos]
      · omega
      · refine ⟨hself ▸ hne, Finset.mem_union_right _ ?_⟩
        rw [hown, if_pos hself]
        exact Finset.mem_singleton_self _
    · rw [if_neg hself] at hmajority
      omega

/-! ## The polls that are read -/

def Poll.counted : Poll → List (GoString × BlameReport)
  | .messages l => l.filterMap Delivery.counted
  | _ => []

/-- The last of the polls is done or fails, or they bring enough reports. -/
def Ends (expected : Int) (polls : List Poll) : Prop :=
  ∃ before last, polls = before ++ [last] ∧
    (last = .done ∨ last = .failed ∨ expected ≤ (polls.flatMap Poll.counted).length)

/-- The polls up to the first that the loop ends with. -/
structure Read (expected : Int) (polls read : List Poll) : Prop where
  initial : read <+: polls
  ends : Ends expected read
  first : ∀ earlier, earlier <+: read → earlier ≠ read → ¬ Ends expected earlier

variable {expected : Int} {before : List Poll} {poll : Poll}

theorem ends_concat : Ends expected (before ++ [poll]) ↔ poll = .done ∨ poll = .failed ∨
    expected ≤ ((before ++ [poll]).flatMap Poll.counted).length := by
  constructor
  · rintro ⟨before', last, heq, hends⟩
    obtain ⟨rfl, hlast⟩ := List.append_inj' heq rfl
    obtain rfl := List.singleton_inj.mp hlast
    exact hends
  · exact fun h => ⟨before, poll, rfl, h⟩

theorem flatMap_counted_concat : (before ++ [poll]).flatMap Poll.counted =
    before.flatMap Poll.counted ++ poll.counted := by
  rw [List.flatMap_append, List.flatMap_singleton]

theorem collect_of_ends (h : Ends expected (before ++ [poll])) (polls : List Poll) :
    collect expected (before.flatMap Poll.counted) (poll :: polls) =
      some ((before ++ [poll]).flatMap Poll.counted) := by
  rw [ends_concat] at h
  rw [flatMap_counted_concat] at h ⊢
  cases poll with
  | done => exact congrArg some (List.append_nil _).symm
  | failed => exact congrArg some (List.append_nil _).symm
  | messages l =>
    have henough : expected ≤ (before.flatMap Poll.counted ++ l.filterMap Delivery.counted).length := by
      simpa [Poll.counted] using h
    rw [collect, if_pos (by omega)]
    rfl

theorem collect_of_not_ends (h : ¬ Ends expected (before ++ [poll])) (polls : List Poll) :
    collect expected (before.flatMap Poll.counted) (poll :: polls) =
      collect expected ((before ++ [poll]).flatMap Poll.counted) polls := by
  rw [ends_concat] at h
  rw [flatMap_counted_concat] at h ⊢
  cases poll with
  | done => exact absurd (.inl rfl) h
  | failed => exact absurd (.inr (.inl rfl)) h
  | messages l =>
    have hfew : ¬ expected ≤ (before.flatMap Poll.counted ++ l.filterMap Delivery.counted).length := by
      simpa [Poll.counted] using h
    rw [collect, if_neg (by omega)]
    rfl

theorem forall_prefix_concat (hbefore : ∀ earlier, earlier <+: before → ¬ Ends expected earlier)
    (h : ¬ Ends expected (before ++ [poll])) :
    ∀ earlier, earlier <+: before ++ [poll] → ¬ Ends expected earlier := by
  intro earlier hearlier
  rcases List.prefix_concat_iff.mp hearlier with rfl | hearlier
  · exact h
  · exact hbefore earlier hearlier

theorem exists_read {received : List (GoString × BlameReport)}
    (hbefore : ∀ earlier, earlier <+: before → ¬ Ends expected earlier)
    (h : collect expected (before.flatMap Poll.counted) polls = some received) :
    ∃ read, Read expected (before ++ polls) read ∧ read.flatMap Poll.counted = received := by
  induction polls generalizing before with
  | nil => nomatch h
  | cons poll polls ih =>
    by_cases hends : Ends expected (before ++ [poll])
    · rw [collect_of_ends hends] at h
      refine ⟨_, ⟨?_, hends, fun earlier hearlier hne => ?_⟩, Option.some.inj h⟩
      · exact (List.prefix_append_right_inj before).mpr
          (List.cons_prefix_cons.mpr ⟨rfl, List.nil_prefix⟩)
      · rcases List.prefix_concat_iff.mp hearlier with heq | hearlier
        · exact absurd heq hne
        · exact hbefore earlier hearlier
    · rw [collect_of_not_ends hends] at h
      rw [List.append_cons]
      exact ih (forall_prefix_concat hbefore hends) h

theorem Read.collect_eq {read : List Poll} (h : Read expected (before ++ polls) read)
    (hbefore : ∀ earlier, earlier <+: before → ¬ Ends expected earlier) :
    collect expected (before.flatMap Poll.counted) polls = some (read.flatMap Poll.counted) := by
  induction polls generalizing before with
  | nil =>
    have hinitial := h.initial
    rw [List.append_nil] at hinitial
    exact absurd h.ends (hbefore read hinitial)
  | cons poll polls ih =>
    rw [List.append_cons] at h
    by_cases hends : Ends expected (before ++ [poll])
    · have hnext : before ++ [poll] <+: before ++ [poll] ++ polls := List.prefix_append _ _
      have heq : read = before ++ [poll] := by
        rcases List.prefix_or_prefix_of_prefix h.initial hnext with hle | hle
        · rcases List.prefix_concat_iff.mp hle with heq | hle
          · exact heq
          · exact absurd h.ends (hbefore read hle)
        · by_contra hne
          exact h.first _ hle (Ne.symm hne) hends
      rw [collect_of_ends hends, heq]
    · rw [collect_of_not_ends hends]
      exact ih h (forall_prefix_concat hbefore hends)

theorem forall_prefix_nil : ∀ earlier, earlier <+: ([] : List Poll) → ¬ Ends expected earlier := by
  rintro earlier hearlier ⟨before, last, rfl, -⟩
  simp at hearlier

/-- The verdicts of a run have a majority behind them, whatever the reports say, exactly if no
minority sent more than half of the reports that are read, with one's own. -/
theorem blame_realMajority_iff (allParties : List GoString) (partyID : GoString)
    (myReport : BlameReport) (polls : List Poll) :
    (∀ polls', polls'.map Poll.erase = polls.map Poll.erase →
      RealMajority allParties partyID myReport polls') ↔
    ∀ read, Read (expectedResponders allParties myReport) polls read →
      NoLoudMinority allParties partyID myReport ((read.flatMap Poll.counted).map Prod.fst) := by
  constructor
  · intro h read hread
    exact noLoudMinority_of_real (hread.collect_eq forall_prefix_nil) h
  · intro h polls' herase
    apply real_of_noLoudMinority
    intro received hreceived
    have hsenders := collect_senders (expectedResponders allParties myReport) [] polls'
    rw [herase, ← collect_senders, hreceived] at hsenders
    obtain ⟨received', hreceived', hfst⟩ := Option.map_eq_some_iff.mp hsenders.symm
    obtain ⟨read, hread, rfl⟩ := exists_read forall_prefix_nil hreceived'
    rw [← hfst]
    exact h read hread

/-- Party "c" blames nobody, and party "b" sends it the same report on "a" twice. -/
def sampleReport : BlameReport := ⟨[98], BlameCrypto, [97], 1, [], 0⟩

theorem repeated_report_frames :
    (tallyBlame [⟨[99], BlameUnknown, [], 0, [], 0⟩, sampleReport, sampleReport]).agreed = true ∧
    ¬ RealMajority [[97], [98], [99]] [99] ⟨[99], BlameUnknown, [], 0, [], 0⟩
      [.messages [⟨[98], some sampleReport⟩, ⟨[98], some sampleReport⟩]] := by
  have hagreed : (tallyBlame [⟨[99], BlameUnknown, [], 0, [], 0⟩, sampleReport,
      sampleReport]).agreed = true := by decide +kernel
  refine ⟨hagreed, fun h => ?_⟩
  have hcollect : collect (expectedResponders [[97], [98], [99]] ⟨[99], BlameUnknown, [], 0, [], 0⟩)
      [] [.messages [⟨[98], some sampleReport⟩, ⟨[98], some sampleReport⟩]] =
      some [([98], sampleReport), ([98], sampleReport)] := by decide +kernel
  have hreal := h _ _ hcollect (exchange_of_collect hcollect) hagreed
  revert hreal
  decide +kernel

end BlameExchange
