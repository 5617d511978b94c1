import FrostZm.Client.Scan

/-!
# What a scan should find

The notes of a wallet in a range of the chain, each with its place in the tree and the nullifier
of what the output holds. Both clients find these notes; which of them they take for unspent
depends on the transactions that the notes are in.
-/

open Sapling

namespace Scan

/-! ## The chain -/

/-- An output with its transaction, its place there, and its height. -/
structure Entry where
  height : Nat
  tx : RawTx
  index : Nat
  output : RawTx.OutputDescription

def heights (first last : Nat) : List Nat := List.range' first (last + 1 - first)

def txEntries (height : Nat) (tx : RawTx) : List Entry :=
  tx.outputs.zipIdx.map fun (output, index) => { height, tx, index, output }

def blockEntries (chain : Nat → List RawTx) (height : Nat) : List Entry :=
  (chain height).flatMap (txEntries height)

def entries (chain : Nat → List RawTx) (first last : Nat) : List Entry :=
  (heights first last).flatMap (blockEntries chain)

def blockNullifiers (chain : Nat → List RawTx) (height : Nat) : List Bytes :=
  (chain height).flatMap fun tx => tx.spends.map RawTx.SpendDescription.nullifier

/-- The spends of the range. -/
def nullifiers (chain : Nat → List RawTx) (first last : Nat) : List Bytes :=
  (heights first last).flatMap (blockNullifiers chain)

/-! ## The server -/

def compactTx (tx : RawTx) : Lightwalletd.CompactTx where
  hash := tx.hash
  spends := tx.spends.map fun s => ⟨s.nullifier⟩
  outputs := tx.outputs.map fun o => ⟨o.cmu, o.ephemeralKey, o.encCiphertext.take 52⟩

def block (chain : Nat → List RawTx) (height : Nat) : Block :=
  ⟨height, (chain height).map compactTx⟩

/-- The server answers what is asked, from this chain. -/
structure Transport.Serves (t : Transport) (chain : Nat → List RawTx) : Prop where
  getBlockRange : ∀ first last, t.getBlockRange first last =
    some ((heights first last).map (block chain))
  getTransaction : ∀ height, ∀ tx ∈ chain height, t.getTransaction tx.hash = some tx.write

/-- A transaction is sent in one message. -/
structure WellFormed (chain : Nat → List RawTx) : Prop where
  sized : ∀ height, ∀ tx ∈ chain height, tx.Sized
  length : ∀ height, ∀ tx ∈ chain height, tx.write.length < 2 ^ 31

/-! ## The wallet -/

/-- The keys of one wallet, as both clients hold them. -/
structure Keys {Rng Witness : Type} (lib : ScanLib Rng Witness) where
  pkp : Bytes
  extras : Bytes
  dfvk : Bytes
  fvk : FullViewingKey
  buildDfvkRaw : buildDfvkRaw lib.toNoteLib pkp extras = .ok dfvk
  length_dfvk : dfvk.length = 128
  fvkFromBytes : lib.fvkFromBytes dfvk = some fvk
  length_ivk : (lib.ivk fvk).length = 32
  scalarFromRepr_ivk : lib.scalarFromRepr (lib.ivk fvk) = some (lib.ivk fvk)

def Keys.ivk {Rng Witness : Type} {lib : ScanLib Rng Witness} (keys : Keys lib) : Bytes :=
  lib.ivk keys.fvk

variable {Rng Witness : Type} {lib : ScanLib Rng Witness} (keys : Keys lib)

/-- The note that an output holds for the wallet. -/
def Entry.note (e : Entry) : Option Note :=
  (lib.cmuFromBytes e.output.cmu).bind fun cmu =>
    (lib.tryCompactDecryption keys.ivk cmu e.output.ephemeralKey (e.output.encCiphertext.take 52)
      (zip212ForHeight (.ofNat e.height))).map Prod.fst

/-- A note of the wallet, in its place in the tree. -/
structure WalletNote where
  entry : Entry
  position : Nat
  note : Note

def walletNotesFrom (es : List Entry) (position : Nat) : List WalletNote :=
  (es.zipIdx position).filterMap fun (entry, position) =>
    (entry.note keys).map fun note => { entry, position, note }

/-- The notes that decrypt in a range behind a tree of this size. -/
def walletNotes (chain : Nat → List RawTx) (first last initialTreeSize : Nat) : List WalletNote :=
  walletNotesFrom keys (entries chain first last) initialTreeSize

/-- The nullifier that the note functions compute of a note that they decrypted. -/
def nullifierOf (height position : UInt64) (note : Note) : Option Bytes :=
  (rebuildAs lib.toNoteLib note (903000 ≤ height)).map fun rebuilt =>
    lib.nf rebuilt keys.fvk.nk position

namespace WalletNote

def found (n : WalletNote) : FoundNote where
  height := n.entry.height
  txHash := n.entry.tx.hash
  index := n.entry.index
  value := n.note.value
  position := n.position
  cmu := n.entry.output.cmu
  ephemeralKey := n.entry.output.ephemeralKey

def nullifier (n : WalletNote) : Bytes := lib.nf n.note keys.fvk.nk (.ofNat n.position)

/-- What they compute from the full ciphertext of the output. -/
def fullNullifier (n : WalletNote) : Option Bytes :=
  (lib.cmuFromBytes n.entry.output.cmu).bind fun cmu =>
    (lib.tryNoteDecryption keys.ivk cmu n.entry.output.ephemeralKey n.entry.output.encCiphertext
      (zip212ForHeight (.ofNat n.entry.height))).bind fun found =>
        nullifierOf keys (.ofNat n.entry.height) (.ofNat n.position) found.1

end WalletNote

/-! ## What the pass finds -/

section Pass

variable {keys}

theorem walletNotesFrom_append (es fs : List Entry) (position : Nat) :
    walletNotesFrom keys (es ++ fs) position =
      walletNotesFrom keys es position ++ walletNotesFrom keys fs (position + es.length) := by
  unfold walletNotesFrom
  rw [List.zipIdx_append, List.filterMap_append]

theorem walletNotesFrom_cons (e : Entry) (es : List Entry) (position : Nat) :
    walletNotesFrom keys (e :: es) position =
      ((e.note keys).map fun note => { entry := e, position, note }).toList ++
        walletNotesFrom keys es (position + 1) := by
  unfold walletNotesFrom
  rw [List.zipIdx_cons, List.filterMap_cons]
  cases h : e.note keys <;> simp [h]

variable {decrypt : Lightwalletd.CompactOutput → UInt64 → Option (Option UInt64)}

/-- The decryption of an output as it comes in a compact block. -/
def decryptOf (decrypt : Lightwalletd.CompactOutput → UInt64 → Option (Option UInt64)) (e : Entry) :
    Option (Option UInt64) :=
  decrypt ⟨e.output.cmu, e.output.ephemeralKey, e.output.encCiphertext.take 52⟩ (.ofNat e.height)

variable (keys) in
/-- Decryption that says what an output holds, where it does not fail. -/
def Tells (decrypt : Lightwalletd.CompactOutput → UInt64 → Option (Option UInt64)) : Prop :=
  ∀ e : Entry, e.output.Sized → ∀ value, decryptOf decrypt e = some value →
    value = (e.note keys).map Note.value

/-- The state behind some outputs. -/
def State.after (keys : Keys lib) (st : State) (spent : List Bytes) (es : List Entry) : State where
  spentNullifiers := st.spentNullifiers ++ spent
  commitmentPos := st.commitmentPos + es.length
  notes := st.notes ++ (walletNotesFrom keys es st.commitmentPos).map WalletNote.found

theorem State.after_after (st : State) (spent spent' : List Bytes) (es es' : List Entry) :
    (st.after keys spent es).after keys spent' es' = st.after keys (spent ++ spent') (es ++ es') := by
  unfold State.after
  simp only [walletNotesFrom_append, List.map_append, List.append_assoc, List.length_append,
    Nat.add_assoc]

theorem outputStep_eq (tells : Tells keys decrypt) {e : Entry} (he : e.output.Sized) (st : State) :
    outputStep decrypt e.height e.tx.hash st
        (⟨e.output.cmu, e.output.ephemeralKey, e.output.encCiphertext.take 52⟩, e.index) =
      (decryptOf decrypt e).map fun _ => st.after keys [] [e] := by
  have hct : (e.output.encCiphertext.take 52).length = 52 := by
    rw [List.length_take, he.encCiphertext]
    rfl
  unfold outputStep
  rw [if_neg (not_not.mpr he.cmu), if_neg (by simp [he.ephemeralKey, hct])]
  change (decryptOf decrypt e).bind _ = _
  cases hvalue : decryptOf decrypt e with
  | none => rfl
  | some value =>
    obtain rfl := tells e he value hvalue
    unfold State.after
    rw [walletNotesFrom_cons]
    cases e.note keys <;> simp [walletNotesFrom, WalletNote.found]

theorem State.after_nil (st : State) : st.after keys [] [] = st := by
  unfold State.after walletNotesFrom
  simp

variable (keys decrypt) in
theorem foldlM_after {α : Type} {step : State → α → Option State} (es : α → List Entry)
    (spent : α → List Bytes) {l : List α}
    (hstep : ∀ x ∈ l, ∀ st, step st x =
      ((es x).mapM (decryptOf decrypt)).map fun _ => st.after keys (spent x) (es x)) (st : State) :
    l.foldlM step st = ((l.flatMap es).mapM (decryptOf decrypt)).map fun _ =>
      st.after keys (l.flatMap spent) (l.flatMap es) := by
  induction l generalizing st with
  | nil => exact congrArg some st.after_nil.symm
  | cons x l ih =>
    rw [List.forall_mem_cons] at hstep
    rw [List.foldlM_cons, hstep.1, List.flatMap_cons, List.flatMap_cons, List.mapM_append]
    cases (es x).mapM (decryptOf decrypt) with
    | none => rfl
    | some values =>
      simp only [Option.map_some, Option.bind_eq_bind, Option.bind_some]
      rw [ih hstep.2, State.after_after]
      cases (l.flatMap es).mapM (decryptOf decrypt) <;> rfl

theorem txStep_eq (tells : Tells keys decrypt) {height : Nat} {tx : RawTx} (htx : tx.Sized)
    (st : State) :
    txStep decrypt height st (compactTx tx) =
      ((txEntries height tx).mapM (decryptOf decrypt)).map fun _ =>
        st.after keys (tx.spends.map RawTx.SpendDescription.nullifier) (txEntries height tx) := by
  have hspent : ((compactTx tx).spends.map (·.nf)).filter (fun nf => nf.length = 32) =
      tx.spends.map RawTx.SpendDescription.nullifier := by
    unfold compactTx
    rw [List.map_map]
    refine List.filter_eq_self.mpr ?_
    intro nf hnf
    obtain ⟨s, hs, rfl⟩ := List.mem_map.mp hnf
    simpa using (htx.spends s hs).nullifier
  have houtputs : (compactTx tx).outputs.zipIdx = tx.outputs.zipIdx.map fun (o, i) =>
      (⟨o.cmu, o.ephemeralKey, o.encCiphertext.take 52⟩, i) := by
    unfold compactTx
    rw [List.zipIdx_map]
    rfl
  have hentries : txEntries height tx = tx.outputs.zipIdx.flatMap fun x =>
      [{ height, tx, index := x.2, output := x.1 }] := List.map_eq_flatMap
  have hstep : ∀ x ∈ tx.outputs.zipIdx, ∀ st, outputStep decrypt height tx.hash st
      (⟨x.1.cmu, x.1.ephemeralKey, x.1.encCiphertext.take 52⟩, x.2) =
        (([{ height, tx, index := x.2, output := x.1 }] : List Entry).mapM
          (decryptOf decrypt)).map fun _ =>
            st.after keys [] [{ height, tx, index := x.2, output := x.1 }] := by
    intro x hx st
    rw [outputStep_eq (e := { height, tx, index := x.2, output := x.1 }) tells
      (htx.outputs _ (List.fst_mem_of_mem_zipIdx hx)), List.mapM_cons, List.mapM_nil]
    cases decryptOf decrypt { height, tx, index := x.2, output := x.1 } <;> rfl
  unfold txStep
  rw [hspent, houtputs, List.foldlM_map]
  refine (foldlM_after keys decrypt _ _ hstep _).trans ?_
  have hnone : (tx.outputs.zipIdx.flatMap fun _ => ([] : List Bytes)) = [] :=
    List.flatMap_eq_nil_iff.mpr fun _ _ => rfl
  rw [← hentries, hnone]
  unfold State.after
  rw [List.append_nil]

theorem pass_eq (tells : Tells keys decrypt) {chain : Nat → List RawTx} (hchain : WellFormed chain)
    (first last : Nat) (st : State) :
    ((heights first last).map (block chain)).foldlM (blockStep decrypt) st =
      ((entries chain first last).mapM (decryptOf decrypt)).map fun _ =>
        st.after keys (nullifiers chain first last) (entries chain first last) := by
  rw [List.foldlM_map]
  refine foldlM_after keys decrypt (blockEntries chain) (blockNullifiers chain) ?_ st
  intro height _ st
  unfold blockStep block
  rw [List.foldlM_map]
  exact foldlM_after keys decrypt (txEntries height) _
    (fun tx htx st => txStep_eq tells (hchain.sized height tx htx) st) st

end Pass

end Scan
