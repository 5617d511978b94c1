import FrostZm.Lib.Crashes
import FrostZm.Session.SetupCodec

/-!
# Setup messages and the size of a word

The decoders of setup messages as they run where a position has `w` bits, with every sum and every
slice that they compute. They crash exactly where the length of a field of free length does not fit
behind its position.
-/

open Crashes PosReader

/-- A slice takes up less than half of the addresses, and 32 bits are enough for a length. -/
structure InMemory (w : Nat) (data : Bytes) : Prop where
  word : 32 ≤ w
  length : data.length < 2 ^ (w - 1)

/-! ## The fields -/

def readU16On (w : Nat) (data : Bytes) (pos : Nat) (ar : Arithmetic) : Run Fault (UInt16 × Nat) := do
  let stop ← ar.fit w (pos + 2)
  lift (failIf (stop > data.length) .serializationError)
  let low ← get data pos
  let second ← ar.fit w (pos + 1)
  let high ← get data second
  let pos ← ar.fit w (pos + 2)
  return (u16FromLeBytes [low, high], pos)

def readU32On (w : Nat) (data : Bytes) (pos : Nat) (ar : Arithmetic) : Run Fault (UInt32 × Nat) := do
  let stop ← ar.fit w (pos + 4)
  lift (failIf (stop > data.length) .serializationError)
  let b ← range data pos stop
  let b ← unwrap (sized 4 b)
  let pos ← ar.fit w (pos + 4)
  return (u32FromLeBytes b, pos)

/-- The check in front of a field of `len` bytes, the field, and the position behind it. -/
def readBytesOn (w : Nat) (data : Bytes) (pos len : Nat) (ar : Arithmetic) : Run Fault (Bytes × Nat) := do
  let stop ← ar.fit w (pos + len)
  lift (failIf (stop > data.length) .serializationError)
  let b ← range data pos stop
  return (b, stop)

def readFieldOn (w : Nat) (data : Bytes) (pos : Nat) (ar : Arithmetic) : Run Fault (Bytes × Nat) := do
  let (len, pos) ← readU32On w data pos ar
  readBytesOn w data pos len.toNat ar

/-! ## The messages -/

def decodePartyEntriesOn (w : Nat) (data : Bytes) :
    Nat → Nat → Arithmetic → Run Fault (List PartyEntry × Nat)
  | 0, pos, _ => return ([], pos)
  | count + 1, pos, ar => do
    let (frostId, pos) ← readU16On w data pos ar
    let (nameLen, pos) ← readU16On w data pos ar
    let (name, pos) ← readBytesOn w data pos nameLen.toNat ar
    let (parties, pos) ← decodePartyEntriesOn w data count pos ar
    return ({ frostId, name } :: parties, pos)

def SetupMsg.decodeOn (w : Nat) (data : Bytes) (ar : Arithmetic) : Run Fault (SetupMsg × Nat) := do
  lift (failIf (data.length < 6) .serializationError)
  let (maxSigners, pos) ← readU16On w data 0 ar
  let (minSigners, pos) ← readU16On w data pos ar
  let (numParties, pos) ← readU16On w data pos ar
  let (parties, pos) ← decodePartyEntriesOn w data numParties.toNat pos ar
  return ({ maxSigners, minSigners, parties }, pos)

def SignSetup.decodeOn (w : Nat) (data : Bytes) (ar : Arithmetic) : Run Fault SignSetup := do
  let (base, pos) ← SetupMsg.decodeOn w data ar
  let (message, _) ← readFieldOn w data pos ar
  return { base, message }

def decodeU16sOn (w : Nat) (data : Bytes) : Nat → Nat → Arithmetic → Run Fault (List UInt16 × Nat)
  | 0, pos, _ => return ([], pos)
  | count + 1, pos, ar => do
    let (id, pos) ← readU16On w data pos ar
    let (ids, pos) ← decodeU16sOn w data count pos ar
    return (id :: ids, pos)

def ReshareSetup.decodeOn (w : Nat) (data : Bytes) (ar : Arithmetic) : Run Fault ReshareSetup := do
  let (base, pos) ← SetupMsg.decodeOn w data ar
  let (numOld, pos) ← readU16On w data pos ar
  let (oldIdentifiers, pos) ← decodeU16sOn w data numOld.toNat pos ar
  let (expectedVk, _) ← readFieldOn w data pos ar
  return { base, oldIdentifiers, expectedVk }

def KeyImportSetup.decodeOn (w : Nat) (data : Bytes) (ar : Arithmetic) : Run Fault KeyImportSetup := do
  let (base, pos) ← SetupMsg.decodeOn w data ar
  let (seedHolderId, pos) ← readU16On w data pos ar
  let (secretData, pos) ← readFieldOn w data pos ar
  let (accountIndex, _) ← readU32On w data pos ar
  return { base, seedHolderId, secretData, accountIndex }

def KeyImageSetup.decodeOn (w : Nat) (data : Bytes) (ar : Arithmetic) : Run Fault KeyImageSetup := do
  let (base, pos) ← SetupMsg.decodeOn w data ar
  let (outputsData, _) ← readFieldOn w data pos ar
  return { base, outputsData }

/-! ## Lengths -/

/-- Whatever length stands behind a head, the field behind it ends at a position. -/
def LengthsFit (w : Nat) (Head : Bytes → Prop) (data : Bytes) : Prop :=
  ∀ head n, Head head → head ++ u32ToLeBytes n <+: data → head.length + 4 + n.toNat < 2 ^ w

/-- What stands before the length of a message to sign, and of the outputs of key images. -/
def IsBase (head : Bytes) : Prop := ∃ s : SetupMsg, s.Fits ∧ head = s.encode

def IsReshareHead (head : Bytes) : Prop := ∃ (s : SetupMsg) (ids : List UInt16),
  s.Fits ∧ ids.length < 2 ^ 16 ∧
    head = s.encode ++ u16ToLeBytes (.ofNat ids.length) ++ ids.flatMap u16ToLeBytes

def IsKeyImportHead (head : Bytes) : Prop := ∃ (s : SetupMsg) (seedHolderId : UInt16),
  s.Fits ∧ head = s.encode ++ u16ToLeBytes seedHolderId

theorem lengthsFit_of_large {data : Bytes} (h : InMemory 64 data) (Head : Bytes → Prop) :
    LengthsFit 64 Head data := by
  intro head n _ hprefix
  have hle := hprefix.length_le
  rw [List.length_append, length_u32ToLeBytes] at hle
  have hdata := h.length
  have hn := n.toNat_lt
  omega

/-- The length that stands at `pos`, if any, fits. -/
def FieldFits (w : Nat) (data : Bytes) (pos : Nat) : Prop :=
  ∀ n, Holds data pos (u32ToLeBytes n) → pos + 4 + n.toNat < 2 ^ w

variable {w : Nat} {data : Bytes} {pos : Nat}

theorem lengthsFit_iff {Head : Bytes → Prop} : LengthsFit w Head data ↔
    ∀ head, Head head → Holds data 0 head → FieldFits w data head.length := by
  have hboth : ∀ head n, head ++ u32ToLeBytes n <+: data ↔
      Holds data 0 head ∧ Holds data head.length (u32ToLeBytes n) := by
    intro head n
    rw [← holds_zero, holds_append, Nat.zero_add]
  unfold LengthsFit FieldFits
  simp only [hboth]
  exact ⟨fun h head hhead hholds n hn => h head n hhead ⟨hholds, hn⟩,
    fun h head n hhead hholds => h head hhead hholds.1 n hholds.2⟩

/-! ## The fields crash only at a length -/

theorem guarded_failIf {α : Type} {c : Prop} [Decidable c] {code : LibError}
    {k : Arithmetic → Run Fault α} {spec : Result α} {cond : Prop} (hk : ¬ c → Guarded k spec cond) :
    Guarded (fun ar => lift (failIf c code) >>= fun _ => k ar) (failIf c code >>= fun _ => spec)
      (¬ c → cond) := by
  refine ((guarded_lift _).bind_safe fun _ hfail => hk (failIf_eq_ok.mp hfail)).congr ?_
  simp only [failIf_eq_ok, forall_const]

theorem guarded_failIf_safe {α : Type} {c : Prop} [Decidable c] {code : LibError}
    {k : Arithmetic → Run Fault α} {spec : Result α} (hk : ¬ c → Guarded k spec True) :
    Guarded (fun ar => lift (failIf c code) >>= fun _ => k ar) (failIf c code >>= fun _ => spec) True :=
  (guarded_failIf hk).congr (iff_of_true (fun _ => trivial) trivial)

theorem readU16_eq : readU16 data pos = (do
    failIf (data.length < pos + 2) .serializationError
    return (u16FromLeBytes (slice data pos 2), pos + 2)) := by
  unfold readU16 failIf
  split <;> rfl

theorem readU32_eq : readU32 data pos = (do
    failIf (data.length < pos + 4) .serializationError
    return (u32FromLeBytes (slice data pos 4), pos + 4)) := by
  unfold readU32 failIf
  split <;> rfl

theorem readBytes_eq (len : Nat) : readBytes data pos len = (do
    failIf (data.length < pos + len) .serializationError
    return (slice data pos len, pos + len)) := by
  unfold readBytes failIf
  split <;> rfl

theorem slice_two (h : pos + 2 ≤ data.length) :
    slice data pos 2 = [data.getD pos 0, data.getD (pos + 1) 0] := by
  rw [List.getD_eq_getElem _ _ (by omega), List.getD_eq_getElem _ _ (by omega), slice,
    List.drop_eq_getElem_cons (by omega), List.drop_eq_getElem_cons (by omega)]
  rfl

theorem sized_slice {n : Nat} (h : pos + n ≤ data.length) :
    sized n (slice data pos n) = some (slice data pos n) := by
  refine if_pos ?_
  rw [slice, List.length_take, List.length_drop]
  omega

theorem InMemory.fits (h : InMemory w data) (hpos : pos ≤ data.length) {n : Nat} (hn : n < 2 ^ 16) :
    pos + n < 2 ^ w := by
  have hhalf : 2 ^ w = 2 ^ (w - 1) + 2 ^ (w - 1) := by
    have hw := h.word
    rw [← Nat.two_mul, ← Nat.pow_succ', Nat.succ_eq_add_one, Nat.sub_add_cancel (by omega)]
  have hlarge : 2 ^ 31 ≤ 2 ^ (w - 1) := Nat.pow_le_pow_right (by decide) (by have := h.word; omega)
  have hdata := h.length
  omega

theorem guarded_readU16 (h : InMemory w data) (hpos : pos ≤ data.length) :
    Guarded (readU16On w data pos) (readU16 data pos) True := by
  rw [readU16_eq]
  refine (guarded_fit w (pos + 2)).bind_ok (h.fits hpos (by decide)) ?_
  refine guarded_failIf_safe fun hfail => ?_
  rw [not_lt] at hfail
  rw [slice_two hfail]
  refine (guarded_get 0 data pos).bind_ok (by omega) ?_
  refine (guarded_fit w (pos + 1)).bind_ok (h.fits hpos (by decide)) ?_
  refine (guarded_get 0 data (pos + 1)).bind_ok (by omega) ?_
  exact (guarded_fit w (pos + 2)).bind_ok (h.fits hpos (by decide)) (guarded_pure _)

theorem guarded_readU32 (h : InMemory w data) (hpos : pos ≤ data.length) :
    Guarded (readU32On w data pos) (readU32 data pos) True := by
  rw [readU32_eq]
  refine (guarded_fit w (pos + 4)).bind_ok (h.fits hpos (by decide)) ?_
  refine guarded_failIf_safe fun hfail => ?_
  rw [not_lt] at hfail
  refine (guarded_range data pos (pos + 4)).bind_ok ⟨Nat.le_add_right _ _, hfail⟩ ?_
  rw [Nat.add_sub_cancel_left, ← slice, sized_slice hfail]
  refine (guarded_unwrap (LibError.unknownError : Fault) _).bind_ok (Option.some_ne_none _) ?_
  exact (guarded_fit w (pos + 4)).bind_ok (h.fits hpos (by decide)) (guarded_pure _)

theorem guarded_readBytes (len : Nat) :
    Guarded (readBytesOn w data pos len) (readBytes data pos len) (pos + len < 2 ^ w) := by
  rw [readBytes_eq]
  refine ((guarded_fit w (pos + len)).bind_value fun _ => ?_).congr (and_iff_left trivial)
  refine guarded_failIf_safe fun hfail => ?_
  rw [not_lt] at hfail
  refine (guarded_range data pos (pos + len)).bind_ok ⟨Nat.le_add_right _ _, hfail⟩ ?_
  rw [Nat.add_sub_cancel_left]
  exact guarded_pure _

theorem guarded_readField (h : InMemory w data) (hpos : pos ≤ data.length) :
    Guarded (readFieldOn w data pos) (readField data pos) (FieldFits w data pos) := by
  refine ((guarded_readU32 h hpos).bind_safe fun r _ => guarded_readBytes r.1.toNat).congr ?_
  rw [exact_readU32.forall_ok_iff hpos]
  simp only [length_u32ToLeBytes, forall_const]
  rfl

/-! ## The parts in front of a length do not crash -/

theorem guarded_decodePartyEntries (h : InMemory w data) (count : Nat) (hpos : pos ≤ data.length) :
    Guarded (decodePartyEntriesOn w data count pos) (decodePartyEntries data count pos) True := by
  induction count generalizing pos with
  | zero => exact guarded_pure _
  | succ count ih =>
    refine (guarded_readU16 h hpos).then_safe fun _ id hid => ?_
    have hpos := exact_readU16.next_le hpos hid
    refine (guarded_readU16 h hpos).then_safe fun _ len hlen => ?_
    have hpos := exact_readU16.next_le hpos hlen
    have hfits := h.fits hpos len.1.toNat_lt
    refine ((guarded_readBytes len.1.toNat).congr (iff_of_true hfits trivial)).then_safe
      fun _ name hname => ?_
    have hpos := (exact_readBytes _).next_le hpos hname
    exact (ih hpos).then_safe fun _ _ _ => guarded_pure _

theorem guarded_decodeU16s (h : InMemory w data) (count : Nat) (hpos : pos ≤ data.length) :
    Guarded (decodeU16sOn w data count pos) (decodeU16s data count pos) True := by
  induction count generalizing pos with
  | zero => exact guarded_pure _
  | succ count ih =>
    refine (guarded_readU16 h hpos).then_safe fun _ id hid => ?_
    have hpos := exact_readU16.next_le hpos hid
    exact (ih hpos).then_safe fun _ _ _ => guarded_pure _

theorem guarded_setupMsg (h : InMemory w data) :
    Guarded (SetupMsg.decodeOn w data) (SetupMsg.decode data) True := by
  refine (guarded_lift _).then_safe fun _ _ _ => ?_
  refine (guarded_readU16 h (Nat.zero_le _)).then_safe fun _ maxSigners hmax => ?_
  have hpos := exact_readU16.next_le (Nat.zero_le _) hmax
  refine (guarded_readU16 h hpos).then_safe fun _ minSigners hmin => ?_
  have hpos := exact_readU16.next_le hpos hmin
  refine (guarded_readU16 h hpos).then_safe fun _ numParties hnum => ?_
  have hpos := exact_readU16.next_le hpos hnum
  exact (guarded_decodePartyEntries h _ hpos).then_safe fun _ _ _ => guarded_pure _

/-! ## The messages crash exactly if their length does not fit -/

theorem setupMsg_next_le {y : SetupMsg × Nat} (hy : SetupMsg.decode data = .ok y) :
    y.2 ≤ data.length :=
  (accepts_setupMsg data).next_le (Nat.zero_le _) hy

theorem forall_setupMsg_iff {P : SetupMsg × Nat → Prop} :
    (∀ y, SetupMsg.decode data = .ok y → P y) ↔
      ∀ s : SetupMsg, s.Fits → Holds data 0 s.encode → P (s, 0 + s.encode.length) :=
  (accepts_setupMsg data).forall_ok_iff (Nat.zero_le _)

theorem lengthsFit_isBase : LengthsFit w IsBase data ↔
    ∀ y, SetupMsg.decode data = .ok y → FieldFits w data y.2 := by
  rw [lengthsFit_iff, forall_setupMsg_iff]
  simp only [Nat.zero_add]
  constructor
  · intro h s hfits
    exact h _ ⟨s, hfits, rfl⟩
  · rintro h _ ⟨s, hfits, rfl⟩
    exact h s hfits

theorem signSetup_safe_iff (h : InMemory w data) :
    Safe (SignSetup.decodeOn w data) ↔ LengthsFit w IsBase data := by
  have hdecode : SignSetup.decode data = (do
      let (base, pos) ← SetupMsg.decode data
      let (message, _) ← readField data pos
      return { base, message }) := by
    simp only [SignSetup.decode, readField, bind_assoc]
  rw [lengthsFit_isBase]
  refine Guarded.safe_iff (hdecode ▸ (guarded_setupMsg h).bind_safe fun y hy => ?_)
  exact (guarded_readField h (setupMsg_next_le hy)).then_safe fun _ _ _ => guarded_pure _

theorem keyImageSetup_safe_iff (h : InMemory w data) :
    Safe (KeyImageSetup.decodeOn w data) ↔ LengthsFit w IsBase data := by
  have hdecode : KeyImageSetup.decode data = (do
      let (base, pos) ← SetupMsg.decode data
      let (outputsData, _) ← readField data pos
      return { base, outputsData }) := by
    simp only [KeyImageSetup.decode, readField, bind_assoc]
  rw [lengthsFit_isBase]
  refine Guarded.safe_iff (hdecode ▸ (guarded_setupMsg h).bind_safe fun y hy => ?_)
  exact (guarded_readField h (setupMsg_next_le hy)).then_safe fun _ _ _ => guarded_pure _

theorem lengthsFit_behind_base {α : Type} {read : PosReader Fault α} {write : α → Bytes}
    {Fits : α → Prop} (hread : Exact read write Fits) :
    LengthsFit w (fun head => ∃ (s : SetupMsg) (x : α), s.Fits ∧ Fits x ∧ head = s.encode ++ write x)
        data ↔
      ∀ y, SetupMsg.decode data = .ok y → ∀ z, read data y.2 = .ok z → FieldFits w data z.2 := by
  have hboth : (∀ y, SetupMsg.decode data = .ok y →
      ∀ z, read data y.2 = .ok z → FieldFits w data z.2) ↔
        ∀ y, SetupMsg.decode data = .ok y → ∀ x, Fits x → Holds data y.2 (write x) →
          FieldFits w data (y.2 + (write x).length) :=
    forall₂_congr fun y hy => hread.forall_ok_iff (setupMsg_next_le hy)
  rw [hboth, forall_setupMsg_iff, lengthsFit_iff]
  simp only [Nat.zero_add]
  constructor
  · intro h s hs hbase x hx hpart
    have hhead := h _ ⟨s, x, hs, hx, rfl⟩ (holds_append.mpr ⟨hbase, by rwa [Nat.zero_add]⟩)
    rwa [List.length_append] at hhead
  · rintro h _ ⟨s, x, hs, hx, rfl⟩ hhead
    obtain ⟨hbase, hpart⟩ := holds_append.mp hhead
    rw [Nat.zero_add] at hpart
    rw [List.length_append]
    exact h s hs hbase x hx hpart

theorem lengthsFit_isKeyImportHead : LengthsFit w IsKeyImportHead data ↔
    ∀ y, SetupMsg.decode data = .ok y → ∀ z, readU16 data y.2 = .ok z → FieldFits w data z.2 := by
  rw [← lengthsFit_behind_base exact_readU16]
  simp only [true_and]
  rfl

theorem keyImportSetup_safe_iff (h : InMemory w data) :
    Safe (KeyImportSetup.decodeOn w data) ↔ LengthsFit w IsKeyImportHead data := by
  have hdecode : KeyImportSetup.decode data = (do
      let (base, pos) ← SetupMsg.decode data
      let (seedHolderId, pos) ← readU16 data pos
      let (secretData, pos) ← readField data pos
      let (accountIndex, _) ← readU32 data pos
      return { base, seedHolderId, secretData, accountIndex }) := by
    simp only [KeyImportSetup.decode, readField, bind_assoc]
  rw [lengthsFit_isKeyImportHead]
  refine Guarded.safe_iff (hdecode ▸ (guarded_setupMsg h).bind_safe fun y hy => ?_)
  refine (guarded_readU16 h (setupMsg_next_le hy)).bind_safe fun z hz => ?_
  have hpos := exact_readU16.next_le (setupMsg_next_le hy) hz
  refine (guarded_readField h hpos).then_safe fun _ secret hsecret => ?_
  have hpos := exact_readField.next_le hpos hsecret
  exact (guarded_readU32 h hpos).then_safe fun _ _ _ => guarded_pure _

/-- A list of numbers behind their count. -/
def readU16List (data : Bytes) (pos : Nat) : Result (List UInt16 × Nat) := do
  let (count, pos) ← readU16 data pos
  decodeU16s data count.toNat pos

theorem exact_readU16List : Exact readU16List
    (fun ids => u16ToLeBytes (.ofNat ids.length) ++ ids.flatMap u16ToLeBytes)
      fun ids => ids.length < 2 ^ 16 := by
  intro data pos
  unfold readU16List
  apply Accepts.congr
  · apply exact_readU16.bind
    intro count _
    apply exact_decodeU16s count.toNat
  · rintro ⟨ids, next⟩ b
    constructor
    · rintro ⟨count, _, -, ⟨⟨⟨hlen, -⟩, rfl⟩, hnext⟩, rfl⟩
      simp only at hlen hnext
      have hlt : ids.length < 2 ^ 16 := by
        rw [hlen]
        exact count.toNat_lt
      refine ⟨⟨hlt, ?_⟩, ?_⟩
      · simp only [hlen, UInt16.ofNat_toNat]
      · rw [hnext, List.length_append, Nat.add_assoc]
    · rintro ⟨⟨hlt, rfl⟩, hnext⟩
      refine ⟨.ofNat ids.length, _, trivial, ⟨⟨⟨?_, fun _ _ => trivial⟩, rfl⟩, ?_⟩, rfl⟩
      · rw [toNat_ofNat16 hlt]
      · rw [hnext, List.length_append, Nat.add_assoc]

theorem lengthsFit_isReshareHead : LengthsFit w IsReshareHead data ↔
    ∀ y, SetupMsg.decode data = .ok y → ∀ z, readU16List data y.2 = .ok z → FieldFits w data z.2 := by
  rw [← lengthsFit_behind_base exact_readU16List]
  simp only [← List.append_assoc]
  rfl

theorem reshareSetup_safe_iff (h : InMemory w data) :
    Safe (ReshareSetup.decodeOn w data) ↔ LengthsFit w IsReshareHead data := by
  have hdecode : ReshareSetup.decode data = (do
      let (base, pos) ← SetupMsg.decode data
      let (oldIdentifiers, pos) ← readU16List data pos
      let (expectedVk, _) ← readField data pos
      return { base, oldIdentifiers, expectedVk }) := by
    simp only [ReshareSetup.decode, readField, readU16List, bind_assoc]
  have hdecodeOn : ReshareSetup.decodeOn w data = fun ar => (do
      let (base, pos) ← SetupMsg.decodeOn w data ar
      let (oldIdentifiers, pos) ← (do
        let (count, pos) ← readU16On w data pos ar
        decodeU16sOn w data count.toNat pos ar)
      let (expectedVk, _) ← readFieldOn w data pos ar
      return { base, oldIdentifiers, expectedVk }) := by
    funext ar
    simp only [ReshareSetup.decodeOn, bind_assoc]
  rw [lengthsFit_isReshareHead, hdecodeOn]
  refine Guarded.safe_iff (hdecode ▸ (guarded_setupMsg h).bind_safe fun y hy => ?_)
  have hlist : Guarded (fun ar => do
      let (count, pos) ← readU16On w data y.2 ar
      decodeU16sOn w data count.toNat pos ar) (readU16List data y.2) True := by
    refine (guarded_readU16 h (setupMsg_next_le hy)).then_safe fun _ count hcount => ?_
    exact guarded_decodeU16s h _ (exact_readU16.next_le (setupMsg_next_le hy) hcount)
  refine hlist.bind_safe fun z hz => ?_
  have hpos := exact_readU16List.next_le (setupMsg_next_le hy) hz
  exact (guarded_readField h hpos).then_safe fun _ _ _ => guarded_pure _
