import FrostZm.Client.Witness
import FrostZm.Frozt.TxBytes
import Mathlib

/-!
# Preparing a transaction

`PrepareTransaction` adds each selected note with a witness of its own. The signers sign a digest
over the anchor of every spend; the bytes that go out have the anchor of the first.
-/

open Sapling SpentMarks.Frozt

namespace Spend

/-- What the client knows before it prepares. -/
structure Wallet where
  fvk : FullViewingKey
  nsk : Bytes
  address : Bytes
  /-- `DecryptFullNote`. -/
  decryptFullNote : FoundNote → Option Bytes

/-- What `thread_rng` gives to the spends in their order, and to the outputs. -/
structure Draws (Rng : Type) where
  spend : Nat → SpendDraw Rng
  recipient : OutputDraw Rng
  change : OutputDraw Rng

variable {Tree Witness Rng W : Type} (t : TreeCalls Tree Witness) (lib : SaplingLib Rng W)

/-- The loop over the selected notes. -/
def addSpends (scanner : Scanner) (wallet : Wallet) (chainTip : UInt64) :
    TxBuilder → List (FoundNote × SpendDraw Rng) → Option TxBuilder
  | b, [] => some b
  | b, (note, draw) :: rest => do
    let noteData ← wallet.decryptFullNote note
    let witnessData ← buildWitness t scanner note chainTip
    let (b, _) ← (b.addSpend lib (some noteData) (some witnessData) (some ()) draw).toOption
    addSpends scanner wallet chainTip b rest

/-- The notes with what is drawn for them. -/
def withDraws (draws : Draws Rng) (notes : List FoundNote) : List (FoundNote × SpendDraw Rng) :=
  notes.zipIdx.map fun (note, i) => (note, draws.spend i)

def newBuilder (wallet : Wallet) (chainTip : UInt64) : TxBuilder :=
  TxBuilder.new wallet.fvk wallet.nsk (chainTip + 1).toUInt32

/-- The change output, when there is change. -/
def addChange (wallet : Wallet) (changeAmount : UInt64) (draw : OutputDraw Rng) (b : TxBuilder) :
    Option TxBuilder :=
  if changeAmount > 0 then (b.addOutput lib (some wallet.address) changeAmount draw).toOption
  else some b

/-- `PrepareTransaction`: the builder that has built, and the digest to sign. -/
def prepare (scanner : Scanner) (wallet : Wallet) (chainTip : UInt64) (scan : Scan)
    (recipientAddress : Bytes) (sendAmount : UInt64) (draws : Draws Rng) :
    Option (TxBuilder × Bytes) := do
  let selected ← prepareTransaction scan sendAmount
  let totalInput := (selected.map FoundNote.value).sum
  let changeAmount := totalInput - sendAmount - computeFee selected.length 2
  let b ← addSpends t lib scanner wallet chainTip (newBuilder wallet chainTip)
    (withDraws draws selected)
  let b ← (b.addOutput lib (some recipientAddress) sendAmount draws.recipient).toOption
  let b ← addChange lib wallet changeAmount draws.change b
  (b.build lib (some ())).toOption

/-! ## The trees of the selected notes -/

section Trees

variable (chain : UInt64 → List CompactTx) (wallet : Wallet) (chainTip : UInt64)

/-- The commitments over which a note is spent: those behind its witness, with the commitment of
the note as it is rebuilt in its place. -/
def spentLeaves (note : FoundNote) : Option (List Bytes) := do
  let noteData ← wallet.decryptFullNote note
  let rebuilt ← ((newBuilder wallet chainTip).noteOf lib noteData).toOption
  let position ← notePosition chain note
  return (witnessLeaves chain note chainTip).set position (lib.cmu rebuilt)

/-- All selected notes are spent over the same commitments. -/
def SameTree (selected : List FoundNote) : Prop :=
  ∀ n ∈ selected, ∀ m ∈ selected, spentLeaves lib chain wallet chainTip n =
    spentLeaves lib chain wallet chainTip m

end Trees

/-! ## Sizes -/

structure Sized (b : TxBuilder) : Prop where
  spends : ∀ s ∈ b.spends, s.Sized
  outputs : ∀ o ∈ b.outputs, o.Sized

variable {t lib} {b b' : TxBuilder}

theorem sized_makeSpend (sizes : lib.Sizes) (doc : lib.Digests) {pgk : ProofGenerationKey}
    {fvk : FullViewingKey} {note : Note} {merklePath : MerklePath} {draw : SpendDraw Rng}
    {spend : SpendParts} (h : makeSpend lib pgk fvk note merklePath draw = .ok spend) :
    spend.Sized ∧ spend.anchor = lib.merkleRoot merklePath (lib.cmu note) := by
  have hlen := length_anchor doc h
  unfold makeSpend at h
  obtain ⟨anchor, hanchor, h⟩ := bind_eq_ok.mp h
  obtain ⟨zkproof, -, h⟩ := bind_eq_ok.mp h
  obtain rfl := Except.ok.inj h
  refine ⟨⟨?_, ?_, ?_, hlen⟩, ?_⟩
  · exact sizes.valueCommitment _ _
  · exact sizes.nf _ _ _
  · exact sizes.randomize _ _
  · exact sizes.baseFromRepr_eq _ _ (okOr_eq_ok.mp hanchor)

theorem addOutput_sized (sizes : lib.Sizes) {address : Option Bytes} {amount : UInt64}
    {draw : OutputDraw Rng} (hb : Sized b) (h : b.addOutput lib address amount draw = .ok b') :
    Sized b' ∧ b'.spends = b.spends ∧ b'.outputs.length = b.outputs.length + 1 := by
  unfold TxBuilder.addOutput at h
  obtain ⟨addr, -, h⟩ := bind_eq_ok.mp h
  obtain ⟨_, -, h⟩ := bind_eq_ok.mp h
  obtain ⟨recipient, -, h⟩ := bind_eq_ok.mp h
  obtain ⟨_, -, h⟩ := bind_eq_ok.mp h
  obtain ⟨output, houtput, h⟩ := bind_eq_ok.mp h
  obtain rfl := Except.ok.inj h
  refine ⟨⟨hb.spends, ?_⟩, rfl, List.length_append⟩
  intro o ho
  rcases List.mem_append.mp ho with ho | ho
  · exact hb.outputs o ho
  · rw [List.mem_singleton.mp ho]
    exact sized_makeOutput sizes houtput

theorem addChange_sized (sizes : lib.Sizes) {wallet : Wallet} {changeAmount : UInt64}
    {draw : OutputDraw Rng} (hb : Sized b) (h : addChange lib wallet changeAmount draw b = some b') :
    Sized b' ∧ b'.spends = b.spends ∧ b.outputs.length ≤ b'.outputs.length ∧
      b'.outputs.length ≤ b.outputs.length + 1 := by
  unfold addChange at h
  split at h
  · obtain ⟨hb', hspends, hlen⟩ := addOutput_sized sizes hb (toOption_eq_some.mp h)
    exact ⟨hb', hspends, by omega, by omega⟩
  · obtain rfl := Option.some.inj h
    exact ⟨hb, rfl, le_refl _, Nat.le_succ _⟩

/-! ## Anchors -/

variable {model : TreeModel t lib} {chain : UInt64 → List CompactTx} {scanner : Scanner}
  {wallet : Wallet} {chainTip : UInt64}

variable (model chain wallet chainTip) in
/-- A spend of a note has the root of the tree over which the note is spent. -/
def SpentOver (note : FoundNote) (spend : SpendParts) : Prop :=
  ∃ l, spentLeaves lib chain wallet chainTip note = some l ∧ spend.anchor = model.root l

theorem addSpend_spentOver (sizes : lib.Sizes) (doc : lib.Digests)
    (honest : scanner.Honest model chain) {note : FoundNote} {noteData witnessData : Bytes}
    {draw : SpendDraw Rng} {alpha : Bytes} (hfvk : b.fvk = wallet.fvk)
    (hz : b.zip212 = (newBuilder wallet chainTip).zip212)
    (hnote : wallet.decryptFullNote note = some noteData)
    (hwitness : buildWitness t scanner note chainTip = some witnessData) (hb : Sized b)
    (h : b.addSpend lib (some noteData) (some witnessData) (some ()) draw = .ok (b', alpha)) :
    Sized b' ∧ b'.fvk = b.fvk ∧ b'.zip212 = b.zip212 ∧ b'.outputs = b.outputs ∧
      ∃ spend, b'.spends = b.spends ++ [spend] ∧
        SpentOver model chain wallet chainTip note spend := by
  obtain ⟨w, position, hserialize, hposition, hheld, hpos⟩ := buildWitness_ok honest hwitness
  unfold TxBuilder.addSpend at h
  obtain ⟨data, hdata, h⟩ := bind_eq_ok.mp h
  obtain ⟨wit, hwit, h⟩ := bind_eq_ok.mp h
  obtain rfl := Option.some.inj (okOr_eq_ok.mp hdata)
  obtain rfl := Option.some.inj (okOr_eq_ok.mp hwit)
  obtain ⟨_, -, h⟩ := bind_eq_ok.mp h
  obtain ⟨_, -, h⟩ := bind_eq_ok.mp h
  obtain ⟨rebuilt, hrebuilt, h⟩ := bind_eq_ok.mp h
  obtain ⟨v, hv, h⟩ := bind_eq_ok.mp h
  obtain ⟨path, hpath, h⟩ := bind_eq_ok.mp h
  obtain ⟨_, -, h⟩ := bind_eq_ok.mp h
  obtain ⟨spend, hspend, h⟩ := bind_eq_ok.mp h
  obtain ⟨rfl, -⟩ := Prod.mk.inj (Except.ok.inj h)
  obtain ⟨hsized, hanchor⟩ := sized_makeSpend sizes doc hspend
  refine ⟨⟨?_, hb.outputs⟩, rfl, rfl, rfl, spend, rfl, ?_⟩
  · intro s hs
    rcases List.mem_append.mp hs with hs | hs
    · exact hb.spends s hs
    · rw [List.mem_singleton.mp hs]
      exact hsized
  · have hnoteOf : (newBuilder wallet chainTip).noteOf lib noteData = .ok rebuilt := by
      rw [← hrebuilt]
      unfold TxBuilder.noteOf TxBuilder.rseedOf
      rw [hz, hfvk]
      rfl
    refine ⟨(witnessLeaves chain note chainTip).set position (lib.cmu rebuilt), ?_, ?_⟩
    · unfold spentLeaves
      rw [hnote, hposition]
      simp only [Option.bind_eq_bind, Option.bind_some, hnoteOf, Except.toOption]
      rfl
    · rw [hanchor, model.path w _ _ v path hheld hserialize hv (okOr_eq_ok.mp hpath), hpos]

theorem addSpends_ok (sizes : lib.Sizes) (doc : lib.Digests) (honest : scanner.Honest model chain)
    {notes : List (FoundNote × SpendDraw Rng)} (hfvk : b.fvk = wallet.fvk)
    (hz : b.zip212 = (newBuilder wallet chainTip).zip212) (hb : Sized b)
    (h : addSpends t lib scanner wallet chainTip b notes = some b') :
    Sized b' ∧ b'.outputs = b.outputs ∧ ∃ spends, b'.spends = b.spends ++ spends ∧
      List.Forall₂ (SpentOver model chain wallet chainTip) (notes.map Prod.fst) spends := by
  induction notes generalizing b with
  | nil =>
    obtain rfl := Option.some.inj h
    exact ⟨hb, rfl, [], (List.append_nil _).symm, .nil⟩
  | cons entry rest ih =>
    obtain ⟨note, draw⟩ := entry
    obtain ⟨noteData, hnote, h⟩ := Option.bind_eq_some_iff.mp h
    obtain ⟨witnessData, hwitness, h⟩ := Option.bind_eq_some_iff.mp h
    obtain ⟨⟨b₁, alpha⟩, hadd, h⟩ := Option.bind_eq_some_iff.mp h
    obtain ⟨hb₁, hfvk₁, hz₁, hout₁, spend, hspends₁, hover⟩ :=
      addSpend_spentOver sizes doc honest hfvk hz hnote hwitness hb (toOption_eq_some.mp hadd)
    obtain ⟨hb', hout, spends, hspends, hall⟩ := ih (hfvk₁.trans hfvk) (hz₁.trans hz) hb₁ h
    refine ⟨hb', hout.trans hout₁, spend :: spends, ?_, .cons hover hall⟩
    rw [hspends, hspends₁, List.append_assoc]
    rfl

theorem map_fst_withDraws (draws : Draws Rng) (notes : List FoundNote) :
    (withDraws draws notes).map Prod.fst = notes := by
  unfold withDraws
  rw [List.map_map]
  exact List.zipIdx_map_fst 0 notes

theorem exists_of_forall₂ {α β : Type} {r : α → β → Prop} {l : List α} {l' : List β}
    (h : List.Forall₂ r l l') : (∀ a ∈ l, ∃ b ∈ l', r a b) ∧ ∀ b ∈ l', ∃ a ∈ l, r a b := by
  induction h with
  | nil => simp
  | cons hab hrest ih =>
    refine ⟨List.forall_mem_cons.mpr ⟨⟨_, List.mem_cons_self, hab⟩, fun a ha => ?_⟩,
      List.forall_mem_cons.mpr ⟨⟨_, List.mem_cons_self, hab⟩, fun b hb => ?_⟩⟩
    · obtain ⟨b, hb, hr⟩ := ih.1 a ha
      exact ⟨b, List.mem_cons_of_mem _ hb, hr⟩
    · obtain ⟨a, ha, hr⟩ := ih.2 b hb
      exact ⟨a, List.mem_cons_of_mem _ ha, hr⟩

theorem anchorOf_mem {spends : List SpendParts} (h : spends ≠ []) :
    ∃ s ∈ spends, s.anchor = anchorOf spends := by
  cases spends with
  | nil => exact absurd rfl h
  | cons s rest => exact ⟨s, List.mem_cons_self, rfl⟩

theorem oneAnchor_iff {selected : List FoundNote} {spends : List SpendParts}
    (hover : List.Forall₂ (SpentOver model chain wallet chainTip) selected spends)
    (hroots : ∀ n ∈ selected, ∀ m ∈ selected, ∀ l l', spentLeaves lib chain wallet chainTip n = some l →
      spentLeaves lib chain wallet chainTip m = some l' → model.root l = model.root l' → l = l') :
    OneAnchor spends ↔ SameTree lib chain wallet chainTip selected := by
  obtain ⟨hnotes, hspends⟩ := exists_of_forall₂ hover
  constructor
  · intro hone n hn m hm
    obtain ⟨s, hs, l, hl, hanchor⟩ := hnotes n hn
    obtain ⟨s', hs', l', hl', hanchor'⟩ := hnotes m hm
    have hroot : model.root l = model.root l' := by
      rw [← hanchor, ← hanchor', hone s hs, hone s' hs']
    rw [hl, hl', hroots n hn m hm l l' hl hl' hroot]
  · intro hsame s hs
    obtain ⟨first, hfirst, hanchorOf⟩ := anchorOf_mem (List.ne_nil_of_mem hs)
    obtain ⟨n, hn, l, hl, hanchor⟩ := hspends s hs
    obtain ⟨m, hm, l', hl', hanchor'⟩ := hspends first hfirst
    have heq : l = l' := Option.some.inj (hl.symm.trans ((hsame n hn m hm).trans hl'))
    rw [← hanchorOf, hanchor, hanchor', heq]

variable (model) in
/-- The spends that go out are those of the selected notes, and the digest that was signed is the
one that is read back just if they have one anchor. -/
theorem prepared_spends (sizes : lib.Sizes) (doc : lib.Digests)
    (honest : scanner.Honest model chain) {scan : Scan} {recipientAddress : Bytes}
    {sendAmount : UInt64} {draws : Draws Rng} {selected : List FoundNote}
    (hselected : prepareTransaction scan sendAmount = some selected)
    (hcount : selected.length < 2 ^ 64) {sighash : Bytes}
    (hprepare : prepare t lib scanner wallet chainTip scan recipientAddress sendAmount draws =
      some (b', sighash))
    {sig : SignLib Rng} {sigData raw : Bytes} {rng : Rng} {tx : SaplingTx}
    (htx : b'.completedTx sig sigData rng = .ok tx) (hraw : serializeV5Tx tx = .ok raw) :
    List.Forall₂ (SpentOver model chain wallet chainTip) selected tx.spends ∧
      (Zip244.signatureDigestOfBytes lib.blake2b raw = some sighash ↔ OneAnchor tx.spends) := by
  unfold prepare at hprepare
  obtain ⟨notes, hnotes, hprepare⟩ := Option.bind_eq_some_iff.mp hprepare
  obtain rfl := Option.some.inj (hnotes.symm.trans hselected)
  obtain ⟨b₁, hb₁, hprepare⟩ := Option.bind_eq_some_iff.mp hprepare
  obtain ⟨b₂, hb₂, hprepare⟩ := Option.bind_eq_some_iff.mp hprepare
  obtain ⟨b₃, hb₃, hbuild⟩ := Option.bind_eq_some_iff.mp hprepare
  have hnew : Sized (newBuilder wallet chainTip) := ⟨List.forall_mem_nil _, List.forall_mem_nil _⟩
  obtain ⟨hs₁, hout₁, spends, hspends₁, hover⟩ := addSpends_ok sizes doc honest rfl rfl hnew hb₁
  obtain ⟨hs₂, hspends₂, hout₂⟩ := addOutput_sized sizes hs₁ (toOption_eq_some.mp hb₂)
  obtain ⟨hs₃, hspends₃, hout₃, hout₃'⟩ := addChange_sized sizes hs₂ hb₃
  obtain ⟨hne, hspends, houtputs, hsighash⟩ :=
    completed_of_build (toOption_eq_some.mp hbuild) htx
  rw [map_fst_withDraws] at hover
  have hspent : tx.spends = spends := by rw [hspends, hspends₃, hspends₂, hspends₁]; rfl
  have hout₁' : b₁.outputs.length = 0 := by rw [hout₁]; rfl
  have hnonempty : tx.outputs ≠ [] := by
    rw [houtputs]
    exact List.ne_nil_of_length_pos (by omega)
  obtain ⟨rest, hread⟩ := readTx_serialize (hspends ▸ hne) (fun s hs => hs₃.spends s (hspends ▸ hs))
    (fun o ho => hs₃.outputs o (houtputs ▸ ho))
    ⟨by rw [hspent, ← hover.length_eq]; exact hcount, by rw [houtputs]; omega⟩ hraw
  refine ⟨hspent ▸ hover, ?_⟩
  unfold Zip244.signatureDigestOfBytes
  rw [hread, Option.map_some, Option.some_inj, hsighash, eq_comm,
    computeV5Sighash_eq_iff doc (hspends ▸ hne) fun s hs => (hs₃.spends s (hspends ▸ hs)).anchor]
  exact and_iff_left hnonempty

variable (model) in
/-- What is signed is what goes out just if all selected notes are spent over one tree. -/
theorem prepared_signed_iff (sizes : lib.Sizes) (doc : lib.Digests)
    (honest : scanner.Honest model chain) {scan : Scan} {recipientAddress : Bytes}
    {sendAmount : UInt64} {draws : Draws Rng} {selected : List FoundNote}
    (hselected : prepareTransaction scan sendAmount = some selected)
    (hcount : selected.length < 2 ^ 64)
    (hroots : ∀ n ∈ selected, ∀ m ∈ selected, ∀ l l', spentLeaves lib chain wallet chainTip n = some l →
      spentLeaves lib chain wallet chainTip m = some l' → model.root l = model.root l' → l = l')
    {sighash : Bytes} (hprepare : prepare t lib scanner wallet chainTip scan recipientAddress
      sendAmount draws = some (b', sighash))
    {sig : SignLib Rng} {sigData raw : Bytes} {rng : Rng} {tx : SaplingTx}
    (htx : b'.completedTx sig sigData rng = .ok tx) (hraw : serializeV5Tx tx = .ok raw) :
    OneAnchor tx.spends ∧ Zip244.signatureDigestOfBytes lib.blake2b raw = some sighash ↔
      SameTree lib chain wallet chainTip selected := by
  obtain ⟨hover, hsigned⟩ :=
    prepared_spends model sizes doc honest hselected hcount hprepare htx hraw
  rw [hsigned, and_self_iff]
  exact oneAnchor_iff hover hroots

end Spend

/-! ## Two notes -/

namespace Reference

open Spend

/-- Thirty-two bytes for a list. -/
def rootOf (l : List Bytes) : Bytes := List.replicate 32 (.ofNat l.length)

/-- As many leaves as there is room for. -/
abbrev Leaves := { l : List Node // l.length ≤ FroztTree.noteCommitmentTreeDepth }

def leavesOf (l : List Node) : Option Leaves :=
  if h : l.length ≤ FroztTree.noteCommitmentTreeDepth then some ⟨l, h⟩ else none

theorem leavesOf_eq_some {l : List Node} {t : Leaves} (h : leavesOf l = some t) : t.1 = l := by
  obtain ⟨_, h⟩ := Option.dite_none_right_eq_some.mp h
  exact congrArg Subtype.val (Option.some.inj h).symm

/-- Trees that keep their leaves: the first on the left, and all others as parents. A path has all
leaves. -/
def listTrees : TreeLib Node Leaves (Leaves × List Node) where
  nodeFromBytes := nodeFromBytes
  nodeToBytes := Subtype.val
  left t := t.1.head?
  right _ := none
  parents t := t.1.tail.map some
  treeFromParts left _ parents := leavesOf ((left :: parents).filterMap id)
  treeAppend t n := leavesOf (t.1 ++ [n])
  fromTree t := if t.1 = [] then none else some (t, [])
  tree := Prod.fst
  filled := Prod.snd
  cursor _ := none
  fromParts t filled _ := some (t, filled)
  append w n :=
    if w.2.length < FroztTree.noteCommitmentTreeDepth then some (w.1, w.2 ++ [n]) else none
  root w := w.1.1.headD ⟨zeroRoot, by decide⟩
  path w := some ⟨.ofNat (w.1.1.length - 1), (w.1.1 ++ w.2).map Subtype.val⟩

theorem eq_of_sameLists {w w' : Leaves × List Node} (h : listTrees.SameParts w w') : w = w' :=
  Prod.ext h.tree h.filled

theorem listTrees_documented : listTrees.Documented where
  length_toBytes n := n.2.1
  fromBytes_toBytes n := dif_pos n.2
  length_parents t := by
    have htail : (listTrees.parents t).length = t.1.length - 1 := by
      unfold listTrees
      rw [List.length_map, List.length_tail]
    exact htail.trans_le ((Nat.sub_le _ _).trans t.2)
  length_filled w hw := by
    cases hw with
    | fromTree h =>
      obtain ⟨-, h⟩ := Option.ite_none_left_eq_some.mp h
      obtain rfl := Option.some.inj h
      exact Nat.zero_le _
    | append _ h =>
      obtain ⟨hlt, h⟩ := Option.ite_none_right_eq_some.mp h
      obtain rfl := Option.some.inj h
      exact List.length_append.trans_le hlt
  treeFromParts := by
    rintro ⟨l, hl⟩
    cases l with
    | nil => rfl
    | cons n l =>
      have hall : ((some n :: l.map some).filterMap id) = n :: l := by simp
      change leavesOf ((some n :: l.map some).filterMap id) = _
      rw [hall]
      exact dif_pos hl
  fromParts w := ⟨w, rfl, ⟨rfl, rfl, rfl⟩⟩
  root w w' h := by rw [eq_of_sameLists h]
  path w w' h := by rw [eq_of_sameLists h]
  append w w' n h := by
    rw [eq_of_sameLists h]
    cases listTrees.append w' n with
    | none => exact .none
    | some v => exact .some ⟨rfl, rfl, rfl⟩

/-- A path has the root of its leaves, with the commitment in its place. -/
def listRoot (path : MerklePath) (cmu : Bytes) : Bytes :=
  rootOf (path.authPath.set path.position.toNat cmu)

def listCommitments : listTrees.Commitments listRoot where
  leaves t l := t.1.map Subtype.val = l
  held w l := (w.1.1 ++ w.2).map Subtype.val = l
  position w := w.1.1.length - 1
  root := rootOf
  toBytes_fromBytes b n h := by
    obtain ⟨_, h⟩ := Option.dite_none_right_eq_some.mp h
    exact congrArg Subtype.val (Option.some.inj h).symm
  treeAppend t l n t' hl h := by
    rw [leavesOf_eq_some h, List.map_append, hl]
    rfl
  fromTree t l w hl h := by
    obtain ⟨hne, h⟩ := Option.ite_none_left_eq_some.mp h
    obtain rfl := Option.some.inj h
    refine ⟨?_, ?_⟩
    · rw [List.append_nil, hl]
    · rw [Nat.sub_add_cancel (List.length_pos_iff.mpr hne), ← hl, List.length_map]
  append w l n w' hw h := by
    obtain ⟨-, h⟩ := Option.ite_none_right_eq_some.mp h
    obtain rfl := Option.some.inj h
    refine ⟨?_, rfl⟩
    rw [← List.append_assoc, List.map_append, hw]
    rfl
  path w l path hw hpath c := by
    obtain rfl := Option.some.inj hpath
    have hposition : (UInt64.ofNat (w.1.1.length - 1)).toNat = w.1.1.length - 1 := by
      have hdepth : w.1.1.length ≤ 32 := w.1.2
      rw [UInt64.toNat_ofNat']
      omega
    unfold listRoot
    rw [hposition, hw]

/-- The sized library over these trees. -/
def treeSized : SaplingLib Unit (Leaves × List Node) :=
  SaplingLib.withTrees { sized with merkleRoot := listRoot } listTrees memory

theorem treeSized_sizes : treeSized.Sizes where
  baseFromRepr_eq := sized_sizes.baseFromRepr_eq
  valueCommitment := sized_sizes.valueCommitment
  nf := sized_sizes.nf
  randomize := sized_sizes.randomize
  cmu := sized_sizes.cmu
  ephemeralKey := sized_sizes.ephemeralKey
  encCiphertext := sized_sizes.encCiphertext
  outCiphertext := sized_sizes.outCiphertext

theorem treeSized_digests : treeSized.Digests where
  blake2b_append := digests_documented.blake2b_append
  length_baseFromRepr := digests_documented.length_baseFromRepr

def treeCalls : TreeCalls Leaves (Leaves × List Node) := libraryCalls listTrees memory

def treeModel : TreeModel treeCalls treeSized :=
  libraryModel listTrees_documented FroztTree.roomForDepth_memory listCommitments

end Reference

namespace Spend

section Samples

open Reference

/-- One output at height 10 and one at height 200. -/
def twoBlocks (height : UInt64) : List CompactTx :=
  if height = 10 then [⟨[1], [zeroRoot]⟩]
  else if height = 200 then [⟨[2], [zeroRoot]⟩]
  else []

/-- The tree states are those of no leaf and of one. -/
def twoBlocksScanner : Scanner where
  getTreeState h :=
    if h = 9 then some (ascii "000000")
    else if h = 199 then some (ascii "01" ++ List.replicate 64 48 ++ ascii "0000")
    else none
  scanBlock h := some (twoBlocks h)

theorem twoBlocks_honest : twoBlocksScanner.Honest treeModel twoBlocks where
  scanBlock h block hblock := (Option.some.inj hblock).symm
  getTreeState h state tree hstate htree := by
    change tree.1.map Subtype.val = leavesUpTo twoBlocks h
    unfold twoBlocksScanner at hstate
    simp only at hstate
    split at hstate
    · next h9 =>
      obtain rfl := Option.some.inj hstate
      have hleaves : (treeCalls.treeFromState (ascii "000000")).map (fun t => t.1.map Subtype.val) =
          some (leavesUpTo twoBlocks 9) := by decide +kernel
      rw [htree] at hleaves
      rw [h9]
      exact Option.some.inj hleaves
    · split at hstate
      · next h199 =>
        obtain rfl := Option.some.inj hstate
        have hleaves : (treeCalls.treeFromState (ascii "01" ++ List.replicate 64 48 ++
            ascii "0000")).map (fun t => t.1.map Subtype.val) = some (leavesUpTo twoBlocks 199) := by
          decide +kernel
        rw [htree] at hleaves
        rw [h199]
        exact Option.some.inj hleaves
      · nomatch hstate

def oldNote : FoundNote := ⟨10, [1], 0, 60000, 0⟩

def newNote : FoundNote := ⟨200, [2], 0, 60000, 1⟩

def twoNotesWallet : Wallet where
  fvk := ⟨[], [], []⟩
  nsk := []
  address := []
  decryptFullNote note :=
    some (List.replicate 11 0 ++ u64ToLeBytes note.value ++ List.replicate 32 0)

/-- Both notes are unspent. -/
def twoNotes : Scan where
  notes := [oldNote, newNote]
  nullifier note := some note.txHash
  spentNullifiers := []

def noDraws : Draws Unit := ⟨fun _ => ⟨[], [], ()⟩, ⟨[], [], ()⟩, ⟨[], [], ()⟩⟩

theorem sorted_twoNotes : [oldNote, newNote].mergeSort (fun a b => a.value ≥ b.value) =
      [oldNote, newNote] ∧
    [oldNote, newNote].mergeSort (fun a b => a.value ≤ b.value) = [oldNote, newNote] :=
  ⟨List.mergeSort_of_pairwise (by decide), List.mergeSort_of_pairwise (by decide)⟩

theorem selects_old : prepareTransaction twoNotes 1000 = some [oldNote] := by
  unfold prepareTransaction selectNotes
  rw [show twoNotes.unspent = [oldNote, newNote] from rfl, sorted_twoNotes.1, sorted_twoNotes.2]
  decide +kernel

theorem selects_both : prepareTransaction twoNotes 100000 = some [oldNote, newNote] := by
  unfold prepareTransaction selectNotes
  rw [show twoNotes.unspent = [oldNote, newNote] from rfl, sorted_twoNotes.1, sorted_twoNotes.2]
  decide +kernel

/-- The transaction and its bytes, from the first notes of the scan. -/
def sent (selected : List FoundNote) (sendAmount : UInt64) : Option (SaplingTx × Bytes) := do
  let b ← addSpends treeCalls treeSized twoBlocksScanner twoNotesWallet 250
    (newBuilder twoNotesWallet 250) (withDraws noDraws selected)
  let b ← (b.addOutput treeSized (some []) sendAmount noDraws.recipient).toOption
  let b ← addChange treeSized twoNotesWallet
    ((selected.map FoundNote.value).sum - sendAmount - computeFee selected.length 2) noDraws.change b
  let (b, _) ← (b.build treeSized (some ())).toOption
  let tx ← (b.completedTx digestSig (List.replicate (64 * selected.length) 0) ()).toOption
  let raw ← (serializeV5Tx tx).toOption
  return (tx, raw)

theorem sent_of_selects {selected : List FoundNote} {sendAmount : UInt64}
    (h : prepareTransaction twoNotes sendAmount = some selected)
    (hsent : (sent selected sendAmount).isSome) :
    ∃ b' sighash tx raw,
      prepare treeCalls treeSized twoBlocksScanner twoNotesWallet 250 twoNotes [] sendAmount noDraws =
        some (b', sighash) ∧
      b'.completedTx digestSig (List.replicate (64 * selected.length) 0) () = .ok tx ∧
      serializeV5Tx tx = .ok raw := by
  obtain ⟨_, hsent⟩ := Option.isSome_iff_exists.mp hsent
  obtain ⟨b₁, hb₁, hsent⟩ := Option.bind_eq_some_iff.mp hsent
  obtain ⟨b₂, hb₂, hsent⟩ := Option.bind_eq_some_iff.mp hsent
  obtain ⟨b₃, hb₃, hsent⟩ := Option.bind_eq_some_iff.mp hsent
  obtain ⟨⟨b', sighash⟩, hbuild, hsent⟩ := Option.bind_eq_some_iff.mp hsent
  obtain ⟨tx, htx, hsent⟩ := Option.bind_eq_some_iff.mp hsent
  obtain ⟨raw, hraw, -⟩ := Option.bind_eq_some_iff.mp hsent
  refine ⟨b', sighash, tx, raw, ?_, toOption_eq_some.mp htx, toOption_eq_some.mp hraw⟩
  unfold prepare
  rw [h]
  simp only [Option.bind_eq_bind, Option.bind_some, hb₁, hb₂, hb₃, hbuild]

theorem prepared_signed_sample :
    ∃ b' sighash tx raw,
      prepare treeCalls treeSized twoBlocksScanner twoNotesWallet 250 twoNotes [] 1000 noDraws =
        some (b', sighash) ∧
      b'.completedTx digestSig (List.replicate 64 0) () = .ok tx ∧ serializeV5Tx tx = .ok raw ∧
      OneAnchor tx.spends ∧ Zip244.signatureDigestOfBytes treeSized.blake2b raw = some sighash := by
  obtain ⟨b', sighash, tx, raw, hprepare, htx, hraw⟩ :=
    sent_of_selects selects_old (by decide +kernel)
  refine ⟨b', sighash, tx, raw, hprepare, htx, hraw, ?_⟩
  apply (prepared_signed_iff treeModel treeSized_sizes treeSized_digests twoBlocks_honest
    selects_old (by decide) ?_ hprepare htx hraw).mpr
  · intro n hn m hm
    rw [List.mem_singleton.mp hn, List.mem_singleton.mp hm]
  · intro n hn m hm l l' hl hl' _
    rw [List.mem_singleton.mp hn] at hl
    rw [List.mem_singleton.mp hm] at hl'
    exact Option.some.inj (hl.symm.trans hl')

/-- The second note is more than a hundred blocks behind the first. -/
theorem prepared_two_anchors :
    ∃ b' sighash tx raw,
      prepare treeCalls treeSized twoBlocksScanner twoNotesWallet 250 twoNotes [] 100000 noDraws =
        some (b', sighash) ∧
      b'.completedTx digestSig (List.replicate 128 0) () = .ok tx ∧ serializeV5Tx tx = .ok raw ∧
      ¬ OneAnchor tx.spends ∧
      Zip244.signatureDigestOfBytes treeSized.blake2b raw ≠ some sighash := by
  obtain ⟨b', sighash, tx, raw, hprepare, htx, hraw⟩ :=
    sent_of_selects selects_both (by decide +kernel)
  obtain ⟨hover, hsigned⟩ := prepared_spends treeModel treeSized_sizes treeSized_digests
    twoBlocks_honest selects_both (by decide) hprepare htx hraw
  have hold : spentLeaves treeSized twoBlocks twoNotesWallet 250 oldNote = some [zeroRoot] := by
    decide +kernel
  have hnew : spentLeaves treeSized twoBlocks twoNotesWallet 250 newNote = some [zeroRoot, zeroRoot] := by
    decide +kernel
  have hanchors : ¬ OneAnchor tx.spends := by
    intro hone
    obtain ⟨hnotes, -⟩ := exists_of_forall₂ hover
    obtain ⟨s, hs, l, hl, hanchor⟩ := hnotes oldNote List.mem_cons_self
    obtain ⟨s', hs', l', hl', hanchor'⟩ := hnotes newNote (by decide)
    obtain rfl := Option.some.inj (hold.symm.trans hl)
    obtain rfl := Option.some.inj (hnew.symm.trans hl')
    have hroot : rootOf [zeroRoot] = rootOf [zeroRoot, zeroRoot] := by
      rw [← show s.anchor = rootOf _ from hanchor, hone s hs, ← hone s' hs', hanchor']
      rfl
    exact absurd hroot (by decide)
  exact ⟨b', sighash, tx, raw, hprepare, htx, hraw, hanchors, fun h => hanchors (hsigned.mp h)⟩

end Samples

end Spend
