import FrostZm.Client.Unspent

/-!
# When both clients are exact

Both clients leave the unspent notes, and TypeScript their sum, just if every note of the wallet
is in a transaction that both can read, and its nullifier comes out of it.
-/

open Sapling

namespace Scan

variable {Rng Witness : Type} {lib : ScanLib Rng Witness} {keys : Keys lib}

/-! ## Decryption -/

theorem ts_decryptOf {e : Entry} (he : e.output.Sized) :
    decryptOf (Ts.tryDecrypt lib keys.ivk) e =
      (lib.cmuFromBytes e.output.cmu).map fun _ => (e.note keys).map Note.value := by
  have hct : (e.output.encCiphertext.take 52).length = compactNoteSize := by
    rw [List.length_take, he.encCiphertext]
    rfl
  unfold decryptOf Ts.tryDecrypt Wasm.tryDecryptCompact Entry.note
  rw [if_neg (by simp [keys.length_ivk, Keys.ivk, he.cmu, he.ephemeralKey]), if_neg (by simp [hct])]
  simp only [toOption_bind, toOption_okOrMessage]
  rw [show lib.scalarFromRepr keys.ivk = some keys.ivk from keys.scalarFromRepr_ivk]
  cases lib.cmuFromBytes e.output.cmu with
  | none => rfl
  | some cmu =>
    simp only [Option.bind_some, Option.map_some, Option.map_map]
    rfl

theorem go_decryptOf {e : Entry} (he : e.output.Sized) :
    decryptOf (Go.tryDecrypt lib keys.ivk) e = some ((e.note keys).map Note.value) := by
  have hct : (e.output.encCiphertext.take 52).length = compactNoteSize := by
    rw [List.length_take, he.encCiphertext]
    rfl
  have hivk : lib.scalarFromRepr keys.ivk = some keys.ivk := keys.scalarFromRepr_ivk
  have hlen : keys.ivk.length = 32 := keys.length_ivk
  unfold decryptOf Go.tryDecrypt tryDecryptCompact Entry.note
  simp only [okOr_some, bind, Except.bind, failIf, hlen, he.cmu, he.ephemeralKey, hct, hivk]
  cases lib.cmuFromBytes e.output.cmu with
  | none => rfl
  | some cmu =>
    simp only [okOr_some, Option.bind_some]
    cases lib.tryCompactDecryption keys.ivk cmu e.output.ephemeralKey
      (e.output.encCiphertext.take 52) (zip212ForHeight (.ofNat e.height)) <;> rfl

theorem mapM_isSome {α β : Type} {f : α → Option β} {l : List α} :
    (l.mapM f).isSome ↔ ∀ x ∈ l, (f x).isSome := by
  induction l with
  | nil => simp
  | cons x l ih =>
    rw [List.mapM_cons, List.forall_mem_cons, ← ih]
    cases f x with
    | none => simp
    | some y => cases l.mapM f <;> simp

/-! ## Batches -/

theorem heights_append {first mid last : Nat} (hfirst : first ≤ mid) (hlast : mid ≤ last) :
    heights first mid ++ heights (mid + 1) last = heights first last := by
  have hmid : mid + 1 = first + (mid + 1 - first) := by omega
  have hlen : last + 1 - first = mid + 1 - first + (last + 1 - (mid + 1)) := by omega
  unfold heights
  rw [hlen, ← List.range'_append_1, ← hmid]

theorem heights_of_lt {first last : Nat} (h : last < first) : heights first last = [] := by
  unfold heights
  rw [Nat.sub_eq_zero_of_le h]
  rfl

theorem flatMap_batches {batchSize endHeight : Nat} (hsize : 0 < batchSize) {n batchStart : Nat}
    (hn : endHeight + 1 - batchStart ≤ n) :
    (Ts.batches batchSize endHeight n batchStart).flatMap (fun b => heights b.1 b.2) =
      heights batchStart endHeight := by
  induction n generalizing batchStart with
  | zero => exact (heights_of_lt (by omega)).symm
  | succ n ih =>
    unfold Ts.batches
    split
    · rw [List.flatMap_cons, ih (by omega)]
      by_cases hlast : batchStart + batchSize - 1 ≤ endHeight
      · rw [Nat.min_eq_left hlast]
        have hnext : batchStart + batchSize = batchStart + batchSize - 1 + 1 := by omega
        rw [hnext]
        exact heights_append (by omega) hlast
      · rw [Nat.min_eq_right (by omega),
          heights_of_lt (show endHeight < batchStart + batchSize by omega), List.append_nil]
    · exact (heights_of_lt (by omega)).symm

theorem foldlM_batches {t : Transport} {chain : Nat → List RawTx} (serves : t.Serves chain)
    {σ : Type} (step : σ → Block → Option σ) (l : List (Nat × Nat)) (st : σ) :
    l.foldlM (fun st (batchStart, batchEnd) => do
      let blocks ← t.getBlockRange batchStart batchEnd
      blocks.foldlM step st) st =
    ((l.flatMap fun b => heights b.1 b.2).map (block chain)).foldlM step st := by
  induction l generalizing st with
  | nil => rfl
  | cons b l ih =>
    rw [List.foldlM_cons, List.flatMap_cons, List.map_append, List.foldlM_append]
    simp only [serves.getBlockRange, Option.bind_eq_bind, Option.bind_some]
    congr 1
    funext st'
    have hrest := ih st'
    simp only [serves.getBlockRange, Option.bind_eq_bind, Option.bind_some] at hrest
    exact hrest

/-! ## One note -/

section OneNote

variable {e : Entry} {position : UInt64}

theorem length_noteData {zip212 : Zip212Enforcement} {note : Note} {addr : Bytes}
    (hacc : lib.Accepted keys.fvk zip212 note addr) : (noteData note addr).length = 51 := by
  unfold noteData
  rw [List.length_append, List.length_append, List.length_take, hacc.length_address,
    length_u64ToLeBytes, hacc.length_rseed]
  rfl

theorem wasm_computeNullifier_eq {zip212 : Zip212Enforcement} {note : Note} {addr : Bytes}
    (hacc : lib.Accepted keys.fvk zip212 note addr) (height : UInt64) :
    (Wasm.computeNullifier lib.toNoteLib keys.dfvk (noteData note addr) position height).toOption =
      nullifierOf keys height position note := by
  unfold Wasm.computeNullifier nullifierOf
  rw [if_neg (not_not.mpr keys.length_dfvk), if_neg (not_not.mpr (length_noteData hacc))]
  simp only [toOption_bind, toOption_okOrMessage, keys.fvkFromBytes, Option.bind_some,
    wasm_nullifierNote_eq hacc]
  cases rebuildAs lib.toNoteLib note (903000 ≤ height) <;> rfl

theorem go_computeNullifier_eq {zip212 : Zip212Enforcement} {note : Note} {addr : Bytes}
    (hacc : lib.Accepted keys.fvk zip212 note addr) (height : UInt64) :
    (computeNullifier lib.toNoteLib (some keys.pkp) (some keys.extras) (some (noteData note addr))
      position height (some ())).toOption = nullifierOf keys height position note := by
  have hlen := length_noteData hacc
  have hraw : (buildDfvkRaw lib.toNoteLib keys.pkp keys.extras).toOption = some keys.dfvk := by
    rw [keys.buildDfvkRaw]
    rfl
  unfold computeNullifier nullifierOf
  simp only [toOption_bind, toOption_okOr, toOption_failIf, Option.bind_some, hlen, ne_eq,
    not_true_eq_false, if_false, hraw, keys.fvkFromBytes, nullifierNote_eq hacc]
  cases rebuildAs lib.toNoteLib note (903000 ≤ height) <;> rfl

theorem wasm_fullNullifier (doc : lib.Documented) {n : WalletNote} (hn : n.entry.output.Sized) :
    ((Wasm.decryptNoteFull lib keys.ivk n.entry.output.cmu n.entry.output.ephemeralKey
      n.entry.output.encCiphertext (.ofNat n.entry.height)).toOption.bind fun data =>
        (Wasm.computeNullifier lib.toNoteLib keys.dfvk data (.ofNat n.position)
          (.ofNat n.entry.height)).toOption) = n.fullNullifier keys := by
  have hivk : lib.scalarFromRepr keys.ivk = some keys.ivk := keys.scalarFromRepr_ivk
  have hct : n.entry.output.encCiphertext.length = encCiphertextSize := hn.encCiphertext
  unfold Wasm.decryptNoteFull WalletNote.fullNullifier
  rw [if_neg (by simp [keys.length_ivk, Keys.ivk, hn.cmu, hn.ephemeralKey]), if_neg (by simp [hct])]
  simp only [toOption_bind, toOption_okOrMessage, hivk, Option.bind_some]
  cases lib.cmuFromBytes n.entry.output.cmu with
  | none => rfl
  | some cmu =>
    simp only [Option.bind_some]
    cases hdec : lib.tryNoteDecryption keys.ivk cmu n.entry.output.ephemeralKey
        n.entry.output.encCiphertext (zip212ForHeight (.ofNat n.entry.height)) with
    | none => rfl
    | some found =>
      obtain ⟨note, addr, memo⟩ := found
      have hacc := doc.accepted _ _ _ _ _ _ _ _ hdec
      exact wasm_computeNullifier_eq hacc _

theorem go_fullNullifier (doc : lib.Documented) {n : WalletNote} (hn : n.entry.output.Sized) :
    ((decryptNoteFull lib.toNoteLib (some keys.ivk) (some n.entry.output.cmu)
      (some n.entry.output.ephemeralKey) (some n.entry.output.encCiphertext) (.ofNat n.entry.height)
      (some ())).toOption.bind fun data =>
        (computeNullifier lib.toNoteLib (some keys.pkp) (some keys.extras) (some data)
          (.ofNat n.position) (.ofNat n.entry.height) (some ())).toOption) = n.fullNullifier keys := by
  have hivk : lib.scalarFromRepr keys.ivk = some keys.ivk := keys.scalarFromRepr_ivk
  have hlen : keys.ivk.length = 32 := keys.length_ivk
  have hct : n.entry.output.encCiphertext.length = encCiphertextSize := hn.encCiphertext
  unfold decryptNoteFull WalletNote.fullNullifier
  simp only [toOption_bind, toOption_okOr, toOption_failIf, Option.bind_some, hlen,
    hn.cmu, hn.ephemeralKey, hct, ne_eq, not_true_eq_false, or_self, if_false, hivk]
  cases lib.cmuFromBytes n.entry.output.cmu with
  | none => rfl
  | some cmu =>
    simp only [Option.bind_some]
    cases hdec : lib.tryNoteDecryption keys.ivk cmu n.entry.output.ephemeralKey
        n.entry.output.encCiphertext (zip212ForHeight (.ofNat n.entry.height)) with
    | none => rfl
    | some found =>
      obtain ⟨note, addr, memo⟩ := found
      have hacc := doc.accepted _ _ _ _ _ _ _ _ hdec
      exact go_computeNullifier_eq hacc _

end OneNote

/-! ## The notes of a range -/

section Notes

variable {chain : Nat → List RawTx} {first last initialTreeSize : Nat} {n : WalletNote}

theorem mem_entries {e : Entry} (h : e ∈ entries chain first last) :
    e.tx ∈ chain e.height ∧ e.tx.outputs[e.index]? = some e.output := by
  obtain ⟨height, -, h⟩ := List.mem_flatMap.mp h
  obtain ⟨tx, htx, h⟩ := List.mem_flatMap.mp h
  obtain ⟨⟨output, index⟩, hmem, rfl⟩ := List.mem_map.mp h
  exact ⟨htx, List.mem_zipIdx_iff_getElem?.mp hmem⟩

theorem mem_walletNotesFrom {es : List Entry} {position : Nat}
    (h : n ∈ walletNotesFrom keys es position) :
    n.entry ∈ es ∧ position ≤ n.position := by
  obtain ⟨⟨e, p⟩, hmem, h⟩ := List.mem_filterMap.mp h
  obtain ⟨note, -, rfl⟩ := Option.map_eq_some_iff.mp h
  exact ⟨List.fst_mem_of_mem_zipIdx hmem, List.le_snd_of_mem_zipIdx hmem⟩

theorem positions_nodup (es : List Entry) (position : Nat) :
    ((walletNotesFrom keys es position).map fun n => n.found.position).Nodup := by
  induction es generalizing position with
  | nil => exact List.nodup_nil
  | cons e es ih =>
    rw [walletNotesFrom_cons]
    cases e.note keys with
    | none => exact ih _
    | some note =>
      refine List.nodup_cons.mpr ⟨?_, ih _⟩
      intro hmem
      obtain ⟨n, hn, heq⟩ := List.mem_map.mp hmem
      have hle := (mem_walletNotesFrom hn).2
      have hpos : n.position = position := heq
      omega

theorem filter_map_eq_iff {α β γ : Type} {l : List α} {f : α → β} (key : β → γ)
    (hnodup : (l.map fun x => key (f x)).Nodup) {p q : α → Bool} :
    (l.filter p).map f = (l.filter q).map f ↔ ∀ x ∈ l, p x = q x := by
  have hinj := List.inj_on_of_nodup_map hnodup
  -- what one filter keeps, the other keeps under the same key
  have hsub : ∀ {p q : α → Bool}, (l.filter p).map f = (l.filter q).map f → ∀ x ∈ l, p x → q x := by
    intro p q h x hx hp
    have hmem : f x ∈ (l.filter q).map f := h ▸ List.mem_map_of_mem (List.mem_filter.mpr ⟨hx, hp⟩)
    obtain ⟨y, hy, heq⟩ := List.mem_map.mp hmem
    obtain ⟨hyl, hq⟩ := List.mem_filter.mp hy
    rw [← hinj hyl hx (congrArg key heq)]
    exact hq
  constructor
  · intro h x hx
    rw [Bool.eq_iff_iff]
    exact ⟨hsub h x hx, hsub h.symm x hx⟩
  · intro h
    rw [List.filter_congr h]

theorem filterNotes_map {keep : FoundNote → Option Bool} {b : WalletNote → Bool}
    {l : List WalletNote} (h : ∀ n ∈ l, keep n.found = some (b n)) :
    Go.filterNotes keep (l.map WalletNote.found) = some ((l.filter b).map WalletNote.found) := by
  induction l with
  | nil => rfl
  | cons n l ih =>
    rw [List.forall_mem_cons] at h
    rw [List.map_cons, Go.filterNotes, h.1, ih h.2, List.filter_cons]
    cases b n <;> rfl

/-! ## What the clients keep -/

variable {t : Transport}

theorem entry_of_mem (hchain : WellFormed chain) (serves : t.Serves chain)
    (hn : n ∈ walletNotes keys chain first last initialTreeSize) :
    n.entry.tx.Sized ∧ n.entry.tx.write.length < 2 ^ 31 ∧ n.entry.output.Sized ∧
      n.entry.tx.outputs[n.entry.index]? = some n.entry.output ∧
      t.getTransaction n.found.txHash = some n.entry.tx.write := by
  obtain ⟨htx, houtput⟩ := mem_entries (mem_walletNotesFrom hn).1
  have hsized := hchain.sized _ _ htx
  exact ⟨hsized, hchain.length _ _ htx, hsized.outputs _ (List.mem_of_getElem? houtput), houtput,
    serves.getTransaction _ _ htx⟩

/-- The nullifier that TypeScript checks. -/
def tsNullifier (keys : Keys lib) (n : WalletNote) : Option Bytes :=
  match n.entry.tx.version with
  | .v4 => Ts.nullifierIn lib keys.ivk keys.dfvk n.entry.tx.write n.found
  | .v5 => n.fullNullifier keys

/-- The nullifier that Go checks. -/
def goNullifier (keys : Keys lib) (n : WalletNote) : Option Bytes :=
  match n.entry.tx.version with
  | .v4 => none
  | .v5 => n.fullNullifier keys

theorem ts_nullifierIn (doc : lib.Documented) (hchain : WellFormed chain) (serves : t.Serves chain)
    (hn : n ∈ walletNotes keys chain first last initialTreeSize) :
    Ts.nullifierIn lib keys.ivk keys.dfvk n.entry.tx.write n.found = tsNullifier keys n := by
  obtain ⟨hsized, hlen, houtput, hindex, -⟩ := entry_of_mem hchain serves hn
  unfold tsNullifier
  cases hversion : n.entry.tx.version with
  | v4 => rfl
  | v5 =>
    have hwrite : n.entry.tx.write = n.entry.tx.writeV5 := by
      unfold RawTx.write
      rw [hversion]
    rw [hwrite] at hlen ⊢
    unfold Ts.nullifierIn
    rw [Ts.extract_writeV5 hsized (by omega), show n.found.index = n.entry.index from rfl, hindex]
    exact wasm_fullNullifier doc houtput

theorem go_nullifierIn (doc : lib.Documented) (hchain : WellFormed chain) (serves : t.Serves chain)
    (hn : n ∈ walletNotes keys chain first last initialTreeSize) :
    Go.nullifierIn lib keys.ivk keys.pkp keys.extras n.entry.tx.write n.found =
      some (goNullifier keys n) := by
  obtain ⟨hsized, hlen, houtput, hindex, -⟩ := entry_of_mem hchain serves hn
  unfold goNullifier
  cases hversion : n.entry.tx.version with
  | v4 =>
    have hwrite : n.entry.tx.write = n.entry.tx.writeV4 := by
      unfold RawTx.write
      rw [hversion]
    rw [hwrite]
    unfold Go.nullifierIn
    rw [Go.parse_writeV4]
    rfl
  | v5 =>
    have hwrite : n.entry.tx.write = n.entry.tx.writeV5 := by
      unfold RawTx.write
      rw [hversion]
    rw [hwrite] at hlen ⊢
    unfold Go.nullifierIn
    rw [Go.parse_writeV5 hsized (by omega)]
    simp only [Option.bind_eq_bind, Option.bind_some, List.getElem?_map,
      show n.found.index = n.entry.index from rfl, hindex, Option.map_some]
    exact congrArg some (go_fullNullifier doc houtput)

/-- Whether TypeScript keeps a note. -/
def tsKeeps (keys : Keys lib) (spent : List Bytes) (n : WalletNote) : Bool :=
  match tsNullifier keys n with
  | none => true
  | some nullifier => nullifier ∉ spent

/-- Whether Go keeps it. -/
def goKeeps (keys : Keys lib) (spent : List Bytes) (n : WalletNote) : Bool :=
  match goNullifier keys n with
  | none => false
  | some nf => nf ∉ spent

theorem ts_keeps (doc : lib.Documented) (hchain : WellFormed chain) (serves : t.Serves chain)
    (hn : n ∈ walletNotes keys chain first last initialTreeSize) (spent : List Bytes) :
    Ts.keeps lib t keys.ivk keys.dfvk spent n.found = tsKeeps keys spent n := by
  obtain ⟨-, -, -, -, hget⟩ := entry_of_mem hchain serves hn
  unfold Ts.keeps tsKeeps
  rewrite [hget, Option.bind_some, ts_nullifierIn doc hchain serves hn]
  cases tsNullifier keys n <;> rfl

theorem nfKey_goNullifier (length_nf : ∀ note nk position, (lib.nf note nk position).length = 32)
    {nf : Bytes} (h : goNullifier keys n = some nf) :
    Go.nfKey nf = nf := by
  have hlen : nf.length = 32 := by
    unfold goNullifier WalletNote.fullNullifier nullifierOf at h
    split at h
    · nomatch h
    · obtain ⟨cmu, -, h⟩ := Option.bind_eq_some_iff.mp h
      obtain ⟨found, -, h⟩ := Option.bind_eq_some_iff.mp h
      obtain ⟨rebuilt, -, rfl⟩ := Option.map_eq_some_iff.mp h
      exact length_nf _ _ _
  unfold Go.nfKey
  exact List.take_left' hlen

theorem go_keeps (doc : lib.Documented)
    (length_nf : ∀ note nk position, (lib.nf note nk position).length = 32)
    (hchain : WellFormed chain) (serves : t.Serves chain)
    (hn : n ∈ walletNotes keys chain first last initialTreeSize) (spent : List Bytes) :
    Go.keeps lib t keys.ivk keys.pkp keys.extras spent n.found = some (goKeeps keys spent n) := by
  obtain ⟨-, -, -, -, hget⟩ := entry_of_mem hchain serves hn
  unfold Go.keeps goKeeps
  rw [hget]
  simp only [go_nullifierIn doc hchain serves hn, Option.map_some]
  cases hnf : goNullifier keys n with
  | none => rfl
  | some nf => simp only [nfKey_goNullifier length_nf hnf]

/-- A note that both clients see right: it is in a transaction of version 5, and the nullifier of
its full ciphertext is spent just if its own is; or else it is spent, and the bytes where
TypeScript looks for its ciphertext give a nullifier that is spent too. -/
def Seen (keys : Keys lib) (spent : List Bytes) (n : WalletNote) : Prop :=
  match n.entry.tx.version with
  | .v4 => n.nullifier keys ∈ spent ∧ ∃ nf ∈ spent,
      Ts.nullifierIn lib keys.ivk keys.dfvk n.entry.tx.write n.found = some nf
  | .v5 => ∃ nf, n.fullNullifier keys = some nf ∧ (nf ∈ spent ↔ n.nullifier keys ∈ spent)

theorem seen_iff (spent : List Bytes) (n : WalletNote) :
    (tsKeeps keys spent n = decide (n.nullifier keys ∉ spent) ∧
      goKeeps keys spent n = decide (n.nullifier keys ∉ spent)) ↔ Seen keys spent n := by
  unfold tsKeeps goKeeps tsNullifier goNullifier Seen
  cases n.entry.tx.version with
  | v4 =>
    dsimp only
    cases Ts.nullifierIn lib keys.ivk keys.dfvk n.entry.tx.write n.found with
    | none => simp
    | some nf => simp; tauto
  | v5 =>
    dsimp only
    cases n.fullNullifier keys with
    | none => simp
    | some nf => simp

theorem rebuildAs_self {zip212 : Zip212Enforcement} {note : Note} {addr : Bytes}
    (hacc : lib.Accepted keys.fvk zip212 note addr) {after : Bool} (h : note.rseed.isAfter = after) :
    rebuildAs lib.toNoteLib note after = some note := by
  obtain ⟨recipient, value, rseed⟩ := note
  subst h
  unfold rebuildAs rseedAs
  cases rseed with
  | beforeZip212 rcm =>
    have hrcm : lib.scalarFromRepr rcm = some rcm := hacc.rcm
    simp [Rseed.isAfter, Rseed.bytes, hrcm]
  | afterZip212 seed => rfl

/-- A note in a transaction of version 5 is seen right if its full ciphertext holds it too, and it
is of the variant that its height is taken for. -/
theorem seen_of_decrypts (doc : lib.Documented) (spent : List Bytes)
    (hversion : n.entry.tx.version = .v5)
    (hcmu : lib.cmuFromBytes n.entry.output.cmu = some n.entry.output.cmu) {addr memo : Bytes}
    (hdec : lib.tryNoteDecryption keys.ivk n.entry.output.cmu n.entry.output.ephemeralKey
      n.entry.output.encCiphertext (zip212ForHeight (.ofNat n.entry.height)) =
        some (n.note, addr, memo))
    (hvariant : n.note.rseed.isAfter = decide (903000 ≤ UInt64.ofNat n.entry.height)) :
    Seen keys spent n := by
  have hacc := doc.accepted _ _ _ _ _ _ _ _ hdec
  unfold Seen
  rw [hversion]
  refine ⟨n.nullifier keys, ?_, Iff.rfl⟩
  unfold WalletNote.fullNullifier nullifierOf
  rw [hcmu, Option.bind_some, hdec, Option.bind_some, rebuildAs_self hacc hvariant]
  rfl

end Notes

/-! ## Balances -/

/-- The values add up in numbers of 53 bits. -/
def AddsUp (values : List UInt64) : Prop :=
  values.foldl (fun sum value => Ts.number (sum + Ts.number value.toNat)) 0 =
    (values.map UInt64.toNat).sum

theorem number_of_le {n : Nat} (h : n ≤ 2 ^ 53) : Ts.number n = n := by
  rcases Nat.lt_or_eq_of_le h with hlt | rfl
  · have he : n.log2 - 52 = 0 := by
      by_cases hn : n = 0
      · rw [hn]
        rfl
      · have hlog := (Nat.log2_lt hn).mpr hlt
        omega
    unfold Ts.number
    simp only [he, Nat.pow_zero, Nat.div_one, Nat.mod_one, Nat.mul_zero, Nat.mul_one]
    simp
  · decide

theorem addsUp_of_le {values : List UInt64} (h : (values.map UInt64.toNat).sum ≤ 2 ^ 53) :
    AddsUp values := by
  have hfrom : ∀ {values : List UInt64} {sum : Nat},
      sum + (values.map UInt64.toNat).sum ≤ 2 ^ 53 →
      values.foldl (fun sum value => Ts.number (sum + Ts.number value.toNat)) sum =
        sum + (values.map UInt64.toNat).sum := by
    intro values
    induction values with
    | nil => intro sum _; rfl
    | cons value values ih =>
      intro sum hsum
      rw [List.map_cons, List.sum_cons] at hsum
      rw [List.foldl_cons, number_of_le (n := value.toNat) (by omega), number_of_le (by omega),
        ih (by omega), List.map_cons, List.sum_cons, Nat.add_assoc]
  have hsum : values.foldl (fun sum value => Ts.number (sum + Ts.number value.toNat)) 0 =
      0 + (values.map UInt64.toNat).sum := hfrom (by rwa [Nat.zero_add])
  rwa [Nat.zero_add] at hsum

/-! ## Both clients -/

section Both

variable {chain : Nat → List RawTx} {t : Transport}

variable (keys) in
/-- The notes that are not spent in the range. -/
def unspentNotes (chain : Nat → List RawTx) (first last initialTreeSize : Nat) : List WalletNote :=
  (walletNotes keys chain first last initialTreeSize).filter fun n =>
    n.nullifier keys ∉ nullifiers chain first last

variable (keys t) in
/-- Both clients leave the unspent notes of the range, and TypeScript has their sum. -/
def Exact (chain : Nat → List RawTx) (batchSize first last initialTreeSize : Nat) : Prop :=
  let unspent := unspentNotes keys chain first last initialTreeSize
  Ts.scan lib t keys.ivk keys.dfvk batchSize first last initialTreeSize =
      some (unspent.map WalletNote.found, (unspent.map fun n => n.note.value.toNat).sum) ∧
    Go.unspent lib t keys.ivk keys.pkp keys.extras first last initialTreeSize =
      some (unspent.map WalletNote.found)

theorem ts_scan_eq (doc : lib.Documented) (hchain : WellFormed chain) (serves : t.Serves chain)
    {batchSize : Nat} (hsize : 0 < batchSize) (first last initialTreeSize : Nat) :
    Ts.scan lib t keys.ivk keys.dfvk batchSize first last initialTreeSize =
      ((entries chain first last).mapM (decryptOf (Ts.tryDecrypt lib keys.ivk))).map fun _ =>
        let kept := ((walletNotes keys chain first last initialTreeSize).filter
          (tsKeeps keys (nullifiers chain first last))).map WalletNote.found
        (kept, Ts.spendableBalance kept) := by
  have tells : Tells keys (Ts.tryDecrypt lib keys.ivk) := by
    intro e he value hvalue
    rw [ts_decryptOf he] at hvalue
    obtain ⟨_, -, rfl⟩ := Option.map_eq_some_iff.mp hvalue
    rfl
  unfold Ts.scan
  rw [foldlM_batches serves, flatMap_batches hsize (le_refl _), pass_eq tells hchain]
  cases (entries chain first last).mapM (decryptOf (Ts.tryDecrypt lib keys.ivk)) with
  | none => rfl
  | some values =>
    have hkept : ((walletNotes keys chain first last initialTreeSize).map WalletNote.found).filter
        (Ts.keeps lib t keys.ivk keys.dfvk (nullifiers chain first last)) =
        ((walletNotes keys chain first last initialTreeSize).filter
          (tsKeeps keys (nullifiers chain first last))).map WalletNote.found := by
      rw [List.filter_map]
      congr 1
      exact List.filter_congr fun n hn => ts_keeps doc hchain serves hn _
    simp only [Option.map_some, ← hkept]
    rfl

theorem go_unspent_eq (doc : lib.Documented)
    (length_nf : ∀ note nk position, (lib.nf note nk position).length = 32)
    (hchain : WellFormed chain) (serves : t.Serves chain) (first last initialTreeSize : Nat) :
    Go.unspent lib t keys.ivk keys.pkp keys.extras first last initialTreeSize =
      some (((walletNotes keys chain first last initialTreeSize).filter
        (goKeeps keys (nullifiers chain first last))).map WalletNote.found) := by
  have tells : Tells keys (Go.tryDecrypt lib keys.ivk) := by
    intro e he value hvalue
    rw [go_decryptOf he] at hvalue
    exact (Option.some.inj hvalue).symm
  have hsome : ((entries chain first last).mapM (decryptOf (Go.tryDecrypt lib keys.ivk))).isSome := by
    refine mapM_isSome.mpr fun e he => ?_
    obtain ⟨htx, houtput⟩ := mem_entries he
    rw [go_decryptOf ((hchain.sized _ _ htx).outputs _ (List.mem_of_getElem? houtput))]
    rfl
  obtain ⟨values, hvalues⟩ := Option.isSome_iff_exists.mp hsome
  unfold Go.unspent
  rw [serves.getBlockRange]
  simp only [Option.bind_eq_bind, Option.bind_some]
  rw [pass_eq tells hchain, hvalues, Option.map_some, Option.bind_some]
  exact filterNotes_map fun n hn => go_keeps doc length_nf hchain serves hn _

theorem balance_iff (notes : List WalletNote) :
    Ts.spendableBalance (notes.map WalletNote.found) = (notes.map fun n => n.note.value.toNat).sum ↔
      AddsUp (notes.map fun n => n.note.value) := by
  unfold Ts.spendableBalance AddsUp
  rw [List.foldl_map, List.foldl_map, List.map_map]
  rfl

variable (keys) in
theorem ts_decrypts_iff (hchain : WellFormed chain) (first last : Nat) :
    ((entries chain first last).mapM (decryptOf (Ts.tryDecrypt lib keys.ivk))).isSome ↔
      ∀ e ∈ entries chain first last, (lib.cmuFromBytes e.output.cmu).isSome := by
  rw [mapM_isSome]
  refine forall₂_congr fun e he => ?_
  obtain ⟨htx, houtput⟩ := mem_entries he
  rw [ts_decryptOf ((hchain.sized _ _ htx).outputs _ (List.mem_of_getElem? houtput)),
    Option.isSome_map]

end Both

end Scan

/-! ## One note -/

namespace Reference

/-- A nullifier has a commitment's first bytes, and the position. -/
def scans : ScanLib Unit Unit :=
  { notes with
    nf := fun note _ position =>
      (noteCmu note ++ List.replicate 24 0).take 24 ++ u64ToLeBytes position
    tryCompactDecryption := fun _ cmu _ ct zip212 => do
      let (note, _) ← plaintextNote (ct ++ List.replicate 528 0) zip212
      if noteCmu note = cmu then some (note, note.recipient) else none }

theorem scans_documented : scans.Documented where
  scalarFromRepr_eq := notes_documented.scalarFromRepr_eq
  cmuFromBytes_eq := notes_documented.cmuFromBytes_eq
  scalarFromRepr_expandRcm := notes_documented.scalarFromRepr_expandRcm
  cmu_iff := notes_documented.cmu_iff
  nf_eq n m nk position h := by
    change (noteCmu n ++ _).take 24 ++ _ = (noteCmu m ++ _).take 24 ++ _
    rw [show noteCmu n = noteCmu m from h]
  accepted fvk cmu epk ct zip212 note addr memo h := by
    obtain ⟨hrecipient, haddress, hlen, hseed, hrcm, hoff, hon⟩ :=
      notes_documented.accepted fvk cmu epk ct zip212 note addr memo h
    exact ⟨hrecipient, haddress, hlen, hseed, hrcm, hoff, hon⟩

theorem length_scans_nf (note : Note) (nk : Bytes) (position : UInt64) :
    (scans.nf note nk position).length = 32 := by
  change ((noteCmu note ++ List.replicate 24 0).take 24 ++ u64ToLeBytes position).length = 32
  rw [List.length_append, List.length_take, List.length_append, List.length_replicate,
    length_u64ToLeBytes, Nat.min_eq_left (Nat.le_add_left _ _)]

end Reference

namespace Scan

section Samples

open Reference

def zeroScanKeys : Keys scans where
  pkp := List.replicate 32 0
  extras := List.replicate 96 0
  dfvk := List.replicate 128 0
  fvk := ⟨List.replicate 32 0, List.replicate 32 0, List.replicate 32 0⟩
  buildDfvkRaw := rfl
  length_dfvk := rfl
  fvkFromBytes := rfl
  length_ivk := rfl
  scalarFromRepr_ivk := rfl

/-- The output of a note of five. -/
def fiveOutput : RawTx.OutputDescription where
  cv := List.replicate 32 0
  cmu := List.replicate 32 6
  ephemeralKey := List.replicate 32 0
  encCiphertext := 2 :: (List.replicate 11 0 ++ u64ToLeBytes 5 ++ List.replicate 560 0)
  outCiphertext := List.replicate 80 0
  zkproof := []

def fiveNote : Note := ⟨List.replicate 43 0, 5, .afterZip212 (List.replicate 32 0)⟩

/-- A transaction with these spends and outputs. -/
def plainTx (version : RawTx.Version) (hash : Bytes) (spends : List RawTx.SpendDescription)
    (outputs : List RawTx.OutputDescription) : RawTx where
  hash
  version
  versionGroupId := List.replicate 4 0
  consensusBranchId := List.replicate 4 0
  lockTime := List.replicate 4 0
  expiryHeight := List.replicate 4 0
  valueBalance := List.replicate 8 0
  txIns := []
  txOuts := []
  spends
  outputs
  tail := []

/-- Two notes of five. -/
def fiveTx (version : RawTx.Version) : RawTx := plainTx version [1] [] [fiveOutput, fiveOutput]

/-- The second note is spent. -/
def spendTx (version : RawTx.Version) : RawTx :=
  plainTx version [2] [⟨List.replicate 32 0, List.replicate 32 0,
    List.replicate 24 6 ++ u64ToLeBytes 1, List.replicate 32 0, [], []⟩] []

/-- The two transactions in the blocks at the heights 2000000 and 2000001. -/
def fiveChain (version : RawTx.Version) (height : Nat) : List RawTx :=
  if height = 2000000 then [fiveTx version]
  else if height = 2000001 then [spendTx version]
  else []

def fiveServer (version : RawTx.Version) : Transport where
  getBlockRange first last := some ((heights first last).map (block (fiveChain version)))
  getTransaction hash :=
    if hash = [1] then some (fiveTx version).write
    else if hash = [2] then some (spendTx version).write
    else none

theorem eq_fiveTx {version : RawTx.Version} {height : Nat} {tx : RawTx}
    (h : tx ∈ fiveChain version height) : tx = fiveTx version ∨ tx = spendTx version := by
  unfold fiveChain at h
  split at h
  · exact .inl (List.mem_singleton.mp h)
  · split at h
    · exact .inr (List.mem_singleton.mp h)
    · exact absurd h List.not_mem_nil

theorem fiveServer_serves (version : RawTx.Version) :
    (fiveServer version).Serves (fiveChain version) where
  getBlockRange _ _ := rfl
  getTransaction height tx htx := by
    rcases eq_fiveTx htx with rfl | rfl <;> rfl

theorem fiveOutput_sized : fiveOutput.Sized := ⟨rfl, rfl, rfl, by decide +kernel, rfl⟩

theorem fiveChain_wellFormed (version : RawTx.Version) : WellFormed (fiveChain version) where
  sized height tx htx := by
    rcases eq_fiveTx htx with rfl | rfl
    · refine ⟨rfl, rfl, rfl, rfl, List.forall_mem_nil _, List.forall_mem_nil _, List.forall_mem_nil _, ?_⟩
      exact List.forall_mem_cons.mpr ⟨fiveOutput_sized, List.forall_mem_singleton.mpr fiveOutput_sized⟩
    · refine ⟨rfl, rfl, rfl, rfl, List.forall_mem_nil _, List.forall_mem_nil _, ?_, List.forall_mem_nil _⟩
      exact List.forall_mem_singleton.mpr ⟨rfl, rfl, rfl⟩
  length height tx htx := by
    rcases eq_fiveTx htx with rfl | rfl <;> cases version <;> decide +kernel

def fiveEntry (version : RawTx.Version) (index : Nat) : Entry :=
  ⟨2000000, fiveTx version, index, fiveOutput⟩

theorem walletNotes_five (version : RawTx.Version) :
    walletNotes zeroScanKeys (fiveChain version) 2000000 2000001 0 =
      [⟨fiveEntry version 0, 0, fiveNote⟩, ⟨fiveEntry version 1, 1, fiveNote⟩] := by
  have hentries : entries (fiveChain version) 2000000 2000001 =
      [fiveEntry version 0, fiveEntry version 1] := rfl
  have hnote : ∀ index, (fiveEntry version index).note zeroScanKeys = some fiveNote := by
    intro index
    change (fiveEntry version 0).note zeroScanKeys = some fiveNote
    cases version <;> decide +kernel
  unfold walletNotes
  rw [hentries, walletNotesFrom_cons, hnote, walletNotesFrom_cons, hnote]
  rfl

end Samples

end Scan
