import FrostZm.Frozt.TxBalance
import Mathlib

/-!
# Decrypted notes

Trial decryption stores a note as 51 bytes: diversifier, value, and the bytes of its `rseed`.
Which of the two variants of ZIP 212 they came from is not stored, and each reader chooses one
by a height.
-/

@[simp] theorem toOption_bind {ε α β : Type} (x : Except ε α) (f : α → Except ε β) :
    (x >>= f).toOption = x.toOption.bind fun a => (f a).toOption := by
  cases x <;> rfl

@[simp] theorem toOption_map {ε α β : Type} (x : Except ε α) (f : α → β) :
    (f <$> x).toOption = x.toOption.map f := by
  cases x <;> rfl

@[simp] theorem toOption_okOr {α : Type} (code : LibError) (x : Option α) :
    (okOr code x).toOption = x := by
  cases x <;> rfl

@[simp] theorem toOption_failIf {cond : Prop} [Decidable cond] (code : LibError) :
    (failIf cond code).toOption = if cond then none else some () := by
  unfold failIf
  split <;> rfl

@[simp] theorem toOption_okOrMessage {α : Type} (message : String) (x : Option α) :
    (okOrMessage message x).toOption = x := by
  cases x <;> rfl

namespace Sapling

deriving instance DecidableEq for Note

/-- What the key and note functions call, beside what the builders do. -/
structure NoteLib (Rng Witness : Type) extends SaplingLib Rng Witness where
  /-- `PublicKeyPackage::deserialize`, and the bytes of its verifying key. -/
  verifyingKey : Bytes → Option Bytes
  /-- `PROOF_GENERATION_KEY_GENERATOR * nsk`. -/
  proofGenerationPoint : Bytes → Bytes
  /-- `DiversifiableFullViewingKey::from_bytes`, and the full viewing key in it. -/
  fvkFromBytes : Bytes → Option FullViewingKey
  /-- The incoming viewing key. -/
  ivk : FullViewingKey → Bytes
  /-- `ExtractedNoteCommitment::from_bytes`. -/
  cmuFromBytes : Bytes → Option Bytes
  /-- `try_sapling_note_decryption`: the note, its address and its memo. -/
  tryNoteDecryption : Bytes → Bytes → Bytes → Bytes → Zip212Enforcement →
    Option (Note × Bytes × Bytes)
  /-- The commitment trapdoor that ZIP 212 expands from a seed. -/
  expandRcm : Bytes → Bytes

namespace Rseed

def bytes : Rseed → Bytes
  | beforeZip212 rcm => rcm
  | afterZip212 rseed => rseed

def isAfter : Rseed → Bool
  | beforeZip212 _ => false
  | afterZip212 _ => true

end Rseed

variable {Rng Witness : Type} (lib : NoteLib Rng Witness)

/-- The trapdoor of a note's commitment. -/
def NoteLib.rcm (note : Note) : Bytes :=
  match note.rseed with
  | .beforeZip212 rcm => rcm
  | .afterZip212 rseed => lib.expandRcm rseed

/-- What decryption under an enforcement promises of a note and its address. -/
structure NoteLib.Accepted (lib : NoteLib Rng Witness) (fvk : FullViewingKey)
    (zip212 : Zip212Enforcement) (note : Note) (addr : Bytes) : Prop where
  recipient : note.recipient = addr
  address : lib.toPaymentAddress fvk (addr.take 11) = some addr
  length_address : addr.length = 43
  length_rseed : note.rseed.bytes.length = 32
  rcm : lib.scalarFromRepr (lib.rcm note) = some (lib.rcm note)
  off : zip212 = .off → note.rseed.isAfter = false
  on : zip212 = .on → note.rseed.isAfter = true

/-- Scalars stand for themselves as their encodings, a commitment is one to its trapdoor, and
the nullifier is one of the commitment. -/
structure NoteLib.Documented (lib : NoteLib Rng Witness) : Prop where
  scalarFromRepr_eq : ∀ b r, lib.scalarFromRepr b = some r → r = b
  cmuFromBytes_eq : ∀ b c, lib.cmuFromBytes b = some c → c = b
  scalarFromRepr_expandRcm : ∀ b, lib.scalarFromRepr (lib.expandRcm b) = some (lib.expandRcm b)
  cmu_iff : ∀ n m, n.recipient = m.recipient → n.value = m.value →
    (lib.cmu n = lib.cmu m ↔ lib.rcm n = lib.rcm m)
  nf_eq : ∀ n m nk position, lib.cmu n = lib.cmu m → lib.nf n nk position = lib.nf m nk position
  accepted : ∀ fvk cmu epk ct zip212 note addr memo,
    lib.tryNoteDecryption (lib.ivk fvk) cmu epk ct zip212 = some (note, addr, memo) →
      lib.Accepted fvk zip212 note addr

/-! ## Keys -/

def buildDfvkRaw (pkp extras : Bytes) : Result Bytes := do
  failIf (extras.length ≠ 96) .invalidBufferSize
  let ak ← okOr .serializationError (lib.verifyingKey pkp)
  let nsk ← okOr .saplingError (lib.scalarFromRepr (slice extras 0 32))
  let nk := lib.proofGenerationPoint nsk
  return ak ++ nk ++ slice extras 32 32 ++ slice extras 64 32

def buildTxBuilder (pkp extras : Bytes) (targetHeight : UInt32) : Result TxBuilder := do
  let dfvkRaw ← buildDfvkRaw lib pkp extras
  let fvk ← okOr .saplingError (lib.fvkFromBytes dfvkRaw)
  let nsk ← okOr .saplingError (lib.scalarFromRepr (slice extras 0 32))
  return TxBuilder.new fvk nsk targetHeight

/-! ## Decryption -/

/-- The 51 bytes that stand for a note. -/
def noteData (note : Note) (addr : Bytes) : Bytes :=
  addr.take 11 ++ u64ToLeBytes note.value ++ note.rseed.bytes

def encCiphertextSize : Nat := 580

def decryptNoteFull (ivk cmu ephemeralKey encCiphertext : Option Bytes) (height : UInt64)
    (outNoteData : Option Unit) : Result Bytes := do
  let ivk ← okOr .nullPtr ivk
  let cmu ← okOr .nullPtr cmu
  let epk ← okOr .nullPtr ephemeralKey
  let ct ← okOr .nullPtr encCiphertext
  okOr .nullPtr outNoteData
  failIf (ivk.length ≠ 32 ∨ cmu.length ≠ 32 ∨ epk.length ≠ 32) .invalidBufferSize
  failIf (ct.length ≠ encCiphertextSize) .invalidBufferSize
  let ivk ← okOr .saplingError (lib.scalarFromRepr ivk)
  let cmu ← okOr .saplingError (lib.cmuFromBytes cmu)
  match lib.tryNoteDecryption ivk cmu epk ct (zip212ForHeight height) with
  | some (note, addr, _) => return noteData note addr
  | none => .error LibError.saplingError

/-! ## Nullifiers -/

def nullifierRseed (height : UInt64) (rseedBytes : Bytes) : Result Rseed :=
  match zip212ForHeight height with
  | .off => Rseed.beforeZip212 <$> okOr .saplingError (lib.scalarFromRepr rseedBytes)
  | _ => .ok (.afterZip212 rseedBytes)

/-- The note that `frozt_sapling_compute_nullifier` takes its nullifier of. -/
def nullifierNote (fvk : FullViewingKey) (noteData : Bytes) (height : UInt64) : Result Note := do
  let diversifier := slice noteData 0 11
  let value := u64FromLeBytes (slice noteData 11 8)
  let rseedBytes := slice noteData 19 32
  let rseed ← nullifierRseed lib height rseedBytes
  let recipient ← okOr .saplingError (lib.toPaymentAddress fvk diversifier)
  return { recipient, value, rseed }

def computeNullifier (pkp extras noteData : Option Bytes) (position height : UInt64)
    (outNullifier : Option Unit) : Result Bytes := do
  let pkp ← okOr .nullPtr pkp
  let extras ← okOr .nullPtr extras
  let noteData ← okOr .nullPtr noteData
  okOr .nullPtr outNullifier
  failIf (noteData.length ≠ 51) .invalidBufferSize
  let dfvk ← buildDfvkRaw lib pkp extras
  let fvk ← okOr .saplingError (lib.fvkFromBytes dfvk)
  let note ← nullifierNote lib fvk noteData height
  return lib.nf note fvk.nk position

namespace Wasm

def nullifierRseed (height : UInt64) (rseedBytes : Bytes) : Except String Rseed :=
  match zip212ForHeight height with
  | .off => Rseed.beforeZip212 <$> okOrMessage "invalid rcm scalar" (lib.scalarFromRepr rseedBytes)
  | _ => .ok (.afterZip212 rseedBytes)

def nullifierNote (fvk : FullViewingKey) (noteData : Bytes) (height : UInt64) :
    Except String Note := do
  let diversifier := slice noteData 0 11
  let value := u64FromLeBytes (slice noteData 11 8)
  let rseedBytes := slice noteData 19 32
  let rseed ← nullifierRseed lib height rseedBytes
  let recipient ← okOrMessage "invalid payment address from diversifier"
    (lib.toPaymentAddress fvk diversifier)
  return { recipient, value, rseed }

def computeNullifier (dfvk noteData : Bytes) (position height : UInt64) : Except String Bytes := do
  if dfvk.length ≠ 128 then throw "dfvk must be 128 bytes"
  if noteData.length ≠ 51 then throw "note_data must be 51 bytes"
  let fvk ← okOrMessage "invalid diversifiable full viewing key" (lib.fvkFromBytes dfvk)
  let note ← nullifierNote lib fvk noteData height
  return lib.nf note fvk.nk position

end Wasm

/-! ## The same note -/

/-- The second note commits as the first: it has its nullifiers, and the roots of its paths. -/
structure SameNote (nk : Bytes) (note rebuilt : Note) : Prop where
  cmu : lib.cmu rebuilt = lib.cmu note
  nf : ∀ position, lib.nf rebuilt nk position = lib.nf note nk position
  root : ∀ path, lib.merkleRoot path (lib.cmu rebuilt) = lib.merkleRoot path (lib.cmu note)

/-- A rebuild succeeds, with the same note. -/
def Rebuilds (nk : Bytes) (note : Note) (rebuilt : Option Note) : Prop :=
  ∃ n, rebuilt = some n ∧ SameNote lib nk note n

/-- The bytes of an `rseed` read as one of the variants. -/
def rseedAs (b : Bytes) : Bool → Option Rseed
  | true => some (.afterZip212 b)
  | false => (lib.scalarFromRepr b).map .beforeZip212

def rebuildAs (note : Note) (after : Bool) : Option Note :=
  (rseedAs lib note.rseed.bytes after).map fun rseed => { note with rseed }

/-- The bytes are the trapdoor that they expand to, so that both variants are one note. -/
def SelfExpanding (note : Note) : Prop := lib.expandRcm note.rseed.bytes = note.rseed.bytes

variable {lib} {note : Note} {nk : Bytes}

theorem sameNote_iff (doc : lib.Documented) {rseed : Rseed} :
    SameNote lib nk note { note with rseed } ↔
      lib.rcm { note with rseed } = lib.rcm note := by
  rw [← doc.cmu_iff { note with rseed } note rfl rfl]
  constructor
  · intro h
    exact h.cmu
  · intro h
    exact ⟨h, fun position => doc.nf_eq _ _ _ _ h, fun path => by rw [h]⟩

/-- A rebuild is the note if it reads the bytes as the variant they came from, and otherwise
only if the two variants are one note. -/
theorem rebuilds_rebuildAs_iff (doc : lib.Documented)
    (hrcm : lib.scalarFromRepr (lib.rcm note) = some (lib.rcm note)) (after : Bool) :
    Rebuilds lib nk note (rebuildAs lib note after) ↔
      SelfExpanding lib note ∨ note.rseed.isAfter = after := by
  obtain ⟨recipient, value, rseed⟩ := note
  unfold Rebuilds SelfExpanding
  cases after <;> cases rseed
  case false.beforeZip212 rcm =>
    simp only [rebuildAs, rseedAs, Rseed.bytes, Rseed.isAfter, or_true, iff_true]
    rw [show lib.scalarFromRepr rcm = some rcm from hrcm]
    exact ⟨_, rfl, (sameNote_iff doc).mpr rfl⟩
  case false.afterZip212 seed =>
    simp only [rebuildAs, rseedAs, Rseed.bytes, Rseed.isAfter, Bool.true_eq_false, or_false]
    constructor
    · rintro ⟨n, hn, hsame⟩
      rw [Option.map_map] at hn
      obtain ⟨r, hr, rfl⟩ := Option.map_eq_some_iff.mp hn
      have heq := (sameNote_iff doc).mp hsame
      rw [doc.scalarFromRepr_eq seed r hr] at heq
      exact heq.symm
    · intro h
      have hseed : lib.scalarFromRepr seed = some seed := by
        have := doc.scalarFromRepr_expandRcm seed
        rwa [h] at this
      rw [hseed]
      exact ⟨_, rfl, (sameNote_iff doc).mpr h.symm⟩
  case true.beforeZip212 rcm =>
    simp only [rebuildAs, rseedAs, Rseed.bytes, Rseed.isAfter, Bool.false_eq_true, or_false]
    constructor
    · rintro ⟨n, hn, hsame⟩
      obtain rfl := Option.some.inj hn
      exact (sameNote_iff doc).mp hsame
    · intro h
      exact ⟨_, rfl, (sameNote_iff doc).mpr h⟩
  case true.afterZip212 seed =>
    simp only [rebuildAs, rseedAs, Rseed.bytes, Rseed.isAfter, or_true, iff_true]
    exact ⟨_, rfl, (sameNote_iff doc).mpr rfl⟩

/-! ## The three readers -/

section Readers

variable {fvk : FullViewingKey} {addr : Bytes} {zip212 : Zip212Enforcement}

theorem slice_noteData (haddr : addr.length = 43) (hrseed : note.rseed.bytes.length = 32) :
    slice (noteData note addr) 0 11 = addr.take 11 ∧
      slice (noteData note addr) 11 8 = u64ToLeBytes note.value ∧
      slice (noteData note addr) 19 32 = note.rseed.bytes := by
  have hd : (addr.take 11).length = 11 := by rw [List.length_take, haddr]; rfl
  have hv := length_u64ToLeBytes note.value
  unfold slice noteData
  refine ⟨?_, ?_, ?_⟩
  · rw [List.drop_zero, List.append_assoc, List.take_left' hd]
  · rw [List.append_assoc, List.drop_left' hd, List.take_left' hv]
  · rw [List.drop_left' (by rw [List.length_append, hd, hv]), List.take_of_length_le hrseed.le]

theorem rebuildAs_eq (hacc : lib.Accepted fvk zip212 note addr) (after : Bool) :
    ((rseedAs lib (slice (noteData note addr) 19 32) after).bind fun rseed =>
      (lib.toPaymentAddress fvk (slice (noteData note addr) 0 11)).bind fun recipient =>
        some ⟨recipient, u64FromLeBytes (slice (noteData note addr) 11 8), rseed⟩) =
      rebuildAs lib note after := by
  obtain ⟨hdiv, hvalue, hrseed⟩ := slice_noteData hacc.length_address hacc.length_rseed
  rw [hdiv, hvalue, hrseed, hacc.address, u64FromLeBytes_toLeBytes, ← hacc.recipient, rebuildAs,
    Option.map_eq_bind]
  rfl

theorem zip212ForHeight_eq_off {height : UInt64} :
    zip212ForHeight height = .off ↔ ¬ 903000 ≤ height := by
  unfold zip212ForHeight
  split
  · next h =>
    have : (903000 : UInt64) ≤ height := UInt64.le_trans (by decide) h
    simp [this]
  · split <;> simp [*]

theorem zip212ForHeight_eq_on {height : UInt64} :
    zip212ForHeight height = .on ↔ 1687104 ≤ height := by
  unfold zip212ForHeight
  split
  · simp [*]
  · split <;> simp [*]

theorem nullifierRseed_eq (height : UInt64) (b : Bytes) :
    (nullifierRseed lib height b).toOption =
      rseedAs lib b (903000 ≤ height) := by
  unfold nullifierRseed
  split
  · next hz =>
    rw [decide_eq_false (zip212ForHeight_eq_off.mp hz), toOption_map, toOption_okOr]
    rfl
  · next hz =>
    rw [decide_eq_true (by_contra fun h => hz (zip212ForHeight_eq_off.mpr h))]
    rfl

theorem wasm_nullifierRseed_eq (height : UInt64) (b : Bytes) :
    (Wasm.nullifierRseed lib height b).toOption = (nullifierRseed lib height b).toOption := by
  unfold Wasm.nullifierRseed nullifierRseed
  cases zip212ForHeight height <;> simp <;> rfl

theorem rseedOf_eq {b : TxBuilder} {targetHeight : UInt32}
    (hz : b.zip212 = zip212ForHeight targetHeight.toUInt64) (r : Bytes) :
    (b.rseedOf lib.toSaplingLib r).toOption =
      rseedAs lib r (1687104 ≤ targetHeight) := by
  have hiff : (1687104 : UInt64) ≤ targetHeight.toUInt64 ↔ 1687104 ≤ targetHeight := by
    rw [UInt64.le_iff_toNat_le, UInt32.le_iff_toNat_le, UInt32.toNat_toUInt64]
    rfl
  unfold TxBuilder.rseedOf
  rw [hz]
  split
  · next hon =>
    rw [decide_eq_true (hiff.mp (zip212ForHeight_eq_on.mp hon))]
    rfl
  · next hon =>
    rw [decide_eq_false fun h => hon (zip212ForHeight_eq_on.mpr (hiff.mpr h)), toOption_map,
      toOption_okOr]
    rfl

theorem nullifierNote_eq (hacc : lib.Accepted fvk zip212 note addr) (height : UInt64) :
    (nullifierNote lib fvk (noteData note addr) height).toOption =
      rebuildAs lib note (903000 ≤ height) := by
  rw [← rebuildAs_eq hacc]
  unfold nullifierNote
  simp only [toOption_bind, toOption_okOr, nullifierRseed_eq]
  rfl

theorem wasm_nullifierNote_eq (hacc : lib.Accepted fvk zip212 note addr) (height : UInt64) :
    (Wasm.nullifierNote lib fvk (noteData note addr) height).toOption =
      rebuildAs lib note (903000 ≤ height) := by
  rw [← nullifierNote_eq hacc]
  unfold nullifierNote Wasm.nullifierNote
  simp only [toOption_bind, toOption_okOr, toOption_okOrMessage, wasm_nullifierRseed_eq]
  rfl

theorem noteOf_eq {b : TxBuilder} {targetHeight : UInt32}
    (hz : b.zip212 = zip212ForHeight targetHeight.toUInt64)
    (hacc : lib.Accepted b.fvk zip212 note addr) :
    (b.noteOf lib.toSaplingLib (noteData note addr)).toOption =
      rebuildAs lib note (1687104 ≤ targetHeight) := by
  rw [← rebuildAs_eq hacc]
  unfold TxBuilder.noteOf
  simp only [toOption_bind, toOption_okOr, rseedOf_eq hz]
  rfl

theorem decryptNoteFull_eq (doc : lib.Documented) {ivk cmu epk ct data memo : Bytes}
    {height : UInt64} (h : decryptNoteFull lib (some ivk) (some cmu) (some epk) (some ct) height
      (some ()) = .ok data)
    (hdec : lib.tryNoteDecryption ivk cmu epk ct (zip212ForHeight height) =
      some (note, addr, memo)) : data = noteData note addr := by
  unfold decryptNoteFull at h
  obtain ⟨ivk', hivk, h⟩ := bind_eq_ok.mp h
  obtain ⟨cmu', hcmu, h⟩ := bind_eq_ok.mp h
  obtain ⟨epk', hepk, h⟩ := bind_eq_ok.mp h
  obtain ⟨ct', hct, h⟩ := bind_eq_ok.mp h
  obtain rfl := Option.some.inj (okOr_eq_ok.mp hivk)
  obtain rfl := Option.some.inj (okOr_eq_ok.mp hcmu)
  obtain rfl := Option.some.inj (okOr_eq_ok.mp hepk)
  obtain rfl := Option.some.inj (okOr_eq_ok.mp hct)
  obtain ⟨_, -, h⟩ := bind_eq_ok.mp h
  obtain ⟨_, -, h⟩ := bind_eq_ok.mp h
  obtain ⟨_, -, h⟩ := bind_eq_ok.mp h
  obtain ⟨i, hi, h⟩ := bind_eq_ok.mp h
  obtain ⟨c, hc, h⟩ := bind_eq_ok.mp h
  rw [doc.scalarFromRepr_eq _ _ (okOr_eq_ok.mp hi), doc.cmuFromBytes_eq _ _ (okOr_eq_ok.mp hc),
    hdec] at h
  exact (Except.ok.inj h).symm

theorem buildTxBuilder_ok {pkp extras : Bytes} {targetHeight : UInt32} {b : TxBuilder}
    (h : buildTxBuilder lib pkp extras targetHeight = .ok b) :
    b.zip212 = zip212ForHeight targetHeight.toUInt64 := by
  unfold buildTxBuilder at h
  obtain ⟨dfvkRaw, -, h⟩ := bind_eq_ok.mp h
  obtain ⟨fvk, -, h⟩ := bind_eq_ok.mp h
  obtain ⟨nsk, -, h⟩ := bind_eq_ok.mp h
  exact Except.ok.inj h ▸ rfl

theorem step_keeps {b b' : TxBuilder} {c : TxBuilder.Call Rng}
    (h : b.step lib.toSaplingLib c = some b') : b'.fvk = b.fvk ∧ b'.zip212 = b.zip212 := by
  unfold TxBuilder.step at h
  split at h
  · next b₁ hb₁ =>
    obtain rfl := Option.some.inj h
    cases c with
    | addSpend noteData witnessData outAlpha draw =>
      obtain ⟨⟨b₂, alpha⟩, hcall, rfl⟩ := map_eq_ok.mp hb₁
      obtain ⟨_, _, -, -, rfl⟩ := TxBuilder.addSpend_ok hcall
      exact ⟨rfl, rfl⟩
    | addOutput address amount draw =>
      obtain ⟨_, -, rfl⟩ := TxBuilder.addOutput_ok hb₁
      exact ⟨rfl, rfl⟩
    | build outSighash =>
      obtain ⟨⟨b₂, sighash⟩, hcall, rfl⟩ := map_eq_ok.mp hb₁
      obtain ⟨-, -, _, -, -, -, rfl⟩ := TxBuilder.build_ok hcall
      exact ⟨rfl, rfl⟩
  · obtain rfl := Option.some.inj h
    exact ⟨rfl, rfl⟩

theorem run_keeps {b₀ b : TxBuilder} {calls : List (TxBuilder.Call Rng)}
    (h : Runs.run (TxBuilder.step lib.toSaplingLib) b₀ calls = some b) :
    b.fvk = b₀.fvk ∧ b.zip212 = b₀.zip212 := by
  refine Runs.inv_of_run (fun u => u.fvk = b₀.fvk ∧ u.zip212 = b₀.zip212) ⟨rfl, rfl⟩ ?_ h
  rintro u c v ⟨hfvk, hz⟩ hstep
  obtain ⟨hfvk', hz'⟩ := step_keeps hstep
  exact ⟨hfvk'.trans hfvk, hz'.trans hz⟩

end Readers

/-! ## Every height -/

/-- The nullifier computations and the builder rebuild the note. -/
structure RebuiltEverywhere (lib : NoteLib Rng Witness) (note : Note) (data : Bytes)
    (height : UInt64) (b : TxBuilder) : Prop where
  nullifier : Rebuilds lib b.fvk.nk note (nullifierNote lib b.fvk data height).toOption
  wasm : Rebuilds lib b.fvk.nk note (Wasm.nullifierNote lib b.fvk data height).toOption
  spend : Rebuilds lib b.fvk.nk note (b.noteOf lib.toSaplingLib data).toOption

/-- A decrypted note is rebuilt if it is a note of ZIP 212 that is spent under it, or a note
from before the grace period that is spent before the enforcement. -/
theorem rebuiltEverywhere_iff (doc : lib.Documented) {pkp extras : Bytes} {targetHeight : UInt32}
    {b₀ b : TxBuilder} {calls : List (TxBuilder.Call Rng)}
    (hb₀ : buildTxBuilder lib pkp extras targetHeight = .ok b₀)
    (hrun : Runs.run (TxBuilder.step lib.toSaplingLib) b₀ calls = some b)
    {cmu epk ct data addr memo : Bytes} {height : UInt64}
    (hdata : decryptNoteFull lib (some (lib.ivk b₀.fvk)) (some cmu) (some epk) (some ct) height
      (some ()) = .ok data)
    (hdec : lib.tryNoteDecryption (lib.ivk b₀.fvk) cmu epk ct (zip212ForHeight height) =
      some (note, addr, memo)) :
    RebuiltEverywhere lib note data height b ↔
      SelfExpanding lib note ∨
        (note.rseed.isAfter = true ∧ 1687104 ≤ targetHeight) ∨
        (note.rseed.isAfter = false ∧ height < 903000 ∧ targetHeight < 1687104) := by
  obtain ⟨hfvk, hz⟩ := run_keeps hrun
  rw [← hfvk] at hdec
  have hacc := doc.accepted _ _ _ _ _ _ _ _ hdec
  obtain rfl := decryptNoteFull_eq doc hdata (hfvk ▸ hdec)
  have hrebuild (after : Bool) : Rebuilds lib b.fvk.nk note (rebuildAs lib note after) ↔
      SelfExpanding lib note ∨ note.rseed.isAfter = after := rebuilds_rebuildAs_iff doc hacc.rcm after
  -- a note of ZIP 212 is not from before the grace period
  have hoff : note.rseed.isAfter = true → 903000 ≤ height := by
    intro hafter
    by_contra h
    rw [hacc.off (zip212ForHeight_eq_off.mpr h)] at hafter
    exact absurd hafter (by decide)
  have hboth : RebuiltEverywhere lib note (noteData note addr) height b ↔
      (SelfExpanding lib note ∨ note.rseed.isAfter = decide (903000 ≤ height)) ∧
        (SelfExpanding lib note ∨ note.rseed.isAfter = decide (1687104 ≤ targetHeight)) := by
    rw [← hrebuild, ← hrebuild, ← nullifierNote_eq hacc,
      ← noteOf_eq (hz.trans (buildTxBuilder_ok hb₀)) hacc]
    constructor
    · intro h
      exact ⟨h.nullifier, h.spend⟩
    · rintro ⟨hn, hs⟩
      exact ⟨hn, by rwa [wasm_nullifierNote_eq hacc, ← nullifierNote_eq hacc], hs⟩
  rw [hboth, ← or_and_left, ← UInt64.not_le, ← UInt32.not_le]
  apply or_congr_right
  cases hafter : note.rseed.isAfter
  · simp
  · simp [hoff hafter]

end Sapling

namespace Reference

open Sapling

/-! ## Decryption that computes

A ciphertext is its plaintext: lead byte, diversifier, value, `rseed` and memo. -/

def expandRcm (seed : Bytes) : Bytes := seed.map (· + 1)

def noteRcm (note : Note) : Bytes :=
  match note.rseed with
  | .beforeZip212 rcm => rcm
  | .afterZip212 rseed => expandRcm rseed

def noteCmu (note : Note) : Bytes := (noteRcm note).map (· + (note.recipient.sum + note.value.toUInt8))

/-- The note of a plaintext, and its memo, if the enforcement allows the lead byte. -/
def plaintextNote (ct : Bytes) (zip212 : Zip212Enforcement) : Option (Note × Bytes) :=
  let recipient := slice ct 1 11 ++ List.replicate 32 0
  let value := u64FromLeBytes (slice ct 12 8)
  let memo := slice ct 52 512
  if ct.length ≠ 580 then none
  else if ct.head? = some 1 ∧ zip212 ≠ .on then
    some (⟨recipient, value, .beforeZip212 (slice ct 20 32)⟩, memo)
  else if ct.head? = some 2 ∧ zip212 ≠ .off then
    some (⟨recipient, value, .afterZip212 (slice ct 20 32)⟩, memo)
  else none

def notes : NoteLib Unit Unit :=
  { sapling with
    cmu := noteCmu
    nf := fun note nk position => noteCmu note ++ nk ++ u64ToLeBytes position
    verifyingKey := some
    proofGenerationPoint := id
    fvkFromBytes := fun b => some ⟨slice b 0 32, slice b 32 32, slice b 64 32⟩
    ivk := FullViewingKey.nk
    cmuFromBytes := some
    tryNoteDecryption := fun _ cmu _ ct zip212 => do
      let (note, memo) ← plaintextNote ct zip212
      if noteCmu note = cmu then some (note, note.recipient, memo) else none
    expandRcm := expandRcm }

theorem plaintextNote_accepted {ct memo : Bytes} {zip212 : Zip212Enforcement} {note : Note}
    (fvk : FullViewingKey) (h : plaintextNote ct zip212 = some (note, memo)) :
    notes.Accepted fvk zip212 note note.recipient := by
  unfold plaintextNote at h
  have hdiv : ct.length = 580 → (slice ct 1 11).length = 11 := by
    intro hlen
    simp [slice, hlen]
  have hseed : ct.length = 580 → (slice ct 20 32).length = 32 := by
    intro hlen
    simp [slice, hlen]
  split at h
  · cases h
  · next hlen =>
    have hlen := not_not.mp hlen
    split at h
    · next hlead =>
      obtain ⟨rfl, -⟩ := Prod.mk.inj (Option.some.inj h)
      refine ⟨rfl, ?_, by simp [hdiv hlen], hseed hlen, rfl, fun _ => rfl, fun hon => absurd hon hlead.2⟩
      change some (_ ++ _) = some _
      rw [List.take_left' (hdiv hlen)]
    · split at h
      · next hlead =>
        obtain ⟨rfl, -⟩ := Prod.mk.inj (Option.some.inj h)
        refine ⟨rfl, ?_, by simp [hdiv hlen], hseed hlen, rfl, fun hoff => absurd hoff hlead.2,
          fun _ => rfl⟩
        change some (_ ++ _) = some _
        rw [List.take_left' (hdiv hlen)]
      · cases h

theorem notes_documented : notes.Documented where
  scalarFromRepr_eq _ _ h := (Option.some.inj h).symm
  cmuFromBytes_eq _ _ h := (Option.some.inj h).symm
  scalarFromRepr_expandRcm _ := rfl
  cmu_iff n m hrecipient hvalue := by
    change noteCmu n = noteCmu m ↔ noteRcm n = noteRcm m
    unfold noteCmu
    rw [hrecipient, hvalue]
    refine (List.map_injective_iff.mpr fun a b h => ?_).eq_iff
    exact (UInt8.add_left_inj _).mp h
  nf_eq n m nk position h := by
    change noteCmu n ++ nk ++ _ = noteCmu m ++ nk ++ _
    rw [show noteCmu n = noteCmu m from h]
  accepted fvk cmu epk ct zip212 note addr memo h := by
    obtain ⟨⟨n, m⟩, hplain, h⟩ := Option.bind_eq_some_iff.mp h
    obtain ⟨-, h⟩ := Option.ite_none_right_eq_some.mp h
    cases h
    exact plaintextNote_accepted fvk hplain

end Reference

namespace Sapling

section Samples

open Reference

/-- The plaintext of a note that is zero, with a lead byte in front. -/
def zeroCiphertext (lead : UInt8) : Bytes := lead :: List.replicate 579 0

def zeroNote (rseed : Rseed) : Note := ⟨List.replicate 43 0, 0, rseed⟩

def zeroKeys (targetHeight : UInt32) : TxBuilder :=
  TxBuilder.new ⟨List.replicate 32 0, List.replicate 32 0, List.replicate 32 0⟩ (List.replicate 32 0)
    targetHeight

theorem buildTxBuilder_zero : buildTxBuilder notes (List.replicate 32 0) (List.replicate 96 0)
    2000001 = .ok (zeroKeys 2000001) := rfl

theorem rebuiltEverywhere_today :
    RebuiltEverywhere notes (zeroNote (.afterZip212 (List.replicate 32 0))) (List.replicate 51 0)
      2000000 (zeroKeys 2000001) := by
  have hrun : Runs.run (TxBuilder.step notes.toSaplingLib) (zeroKeys 2000001) [] =
      some (zeroKeys 2000001) := rfl
  have hdata : decryptNoteFull notes (some (notes.ivk (zeroKeys 2000001).fvk))
      (some (List.replicate 32 1)) (some (List.replicate 32 0)) (some (zeroCiphertext 2)) 2000000
      (some ()) = .ok (List.replicate 51 0) := by decide +kernel
  have hdec : notes.tryNoteDecryption (notes.ivk (zeroKeys 2000001).fvk) (List.replicate 32 1)
      (List.replicate 32 0) (zeroCiphertext 2) (zip212ForHeight 2000000) =
      some (zeroNote (.afterZip212 (List.replicate 32 0)), List.replicate 43 0,
        List.replicate 512 0) := by decide +kernel
  refine (rebuiltEverywhere_iff notes_documented buildTxBuilder_zero hrun hdata hdec).mpr ?_
  exact Or.inr (Or.inl ⟨rfl, by decide⟩)

/-- A note from before the grace period does not come back once ZIP 212 is enforced: the
builder takes its trapdoor for a seed. -/
theorem old_note_rebuilt_as_another :
    buildTxBuilder notes (List.replicate 32 0) (List.replicate 96 0) 2000001 =
      .ok (zeroKeys 2000001) ∧
    decryptNoteFull notes (some (notes.ivk (zeroKeys 2000001).fvk)) (some (List.replicate 32 0))
      (some (List.replicate 32 0)) (some (zeroCiphertext 1)) 800000 (some ()) =
      .ok (List.replicate 51 0) ∧
    notes.tryNoteDecryption (notes.ivk (zeroKeys 2000001).fvk) (List.replicate 32 0)
      (List.replicate 32 0) (zeroCiphertext 1) (zip212ForHeight 800000) =
      some (zeroNote (.beforeZip212 (List.replicate 32 0)), List.replicate 43 0,
        List.replicate 512 0) ∧
    ¬ RebuiltEverywhere notes (zeroNote (.beforeZip212 (List.replicate 32 0)))
      (List.replicate 51 0) 800000 (zeroKeys 2000001) := by
  refine ⟨buildTxBuilder_zero, by decide +kernel, by decide +kernel, fun h => ?_⟩
  obtain ⟨n, hn, hsame⟩ := h.spend
  have hnote : ((zeroKeys 2000001).noteOf notes.toSaplingLib (List.replicate 51 0)).toOption =
      some (zeroNote (.afterZip212 (List.replicate 32 0))) := by decide +kernel
  obtain rfl := Option.some.inj (hnote.symm.trans hn)
  exact absurd hsame.cmu (by decide +kernel)

end Samples

end Sapling
