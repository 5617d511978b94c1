import FrostZm.Lib.Readers
import Mathlib

/-!
# Messages as records

A message goes over the wire as a list of records, each with a field number and either a varint
or a string of bytes. A field with its default value has no record. The records of one field are
in order, those of different fields come as they like.
-/

namespace WireFormat

/-- The groups of seven bits of a value, at most so many. -/
def varintGroups : Nat → Nat → List UInt8
  | 0, _ => []
  | groups + 1, v =>
    if v < 128 then [.ofNat v] else .ofNat (v % 128 + 128) :: varintGroups groups (v / 128)

/-- A value of 64 bits has ten groups. -/
def encodeVarint (v : Nat) : List UInt8 := varintGroups 10 v

/-- The decoder: groups up to the first one that says it is the last. -/
def readGroups : Nat → Reader Nat
  | 0 => failure
  | groups + 1 => do
    let b ← Reader.byte
    if b.toNat < 128 then return b.toNat
    else
      let rest ← readGroups groups
      return b.toNat - 128 + 128 * rest

def readVarint : Reader Nat := readGroups 10

theorem reads_groups {groups v : Nat} (h : v < 128 ^ (groups + 1)) :
    Reader.Reads (readGroups (groups + 1)) (varintGroups (groups + 1) v) v := by
  induction groups generalizing v with
  | zero =>
    have hbyte : (UInt8.ofNat v).toNat = v := by
      rw [UInt8.toNat_ofNat']
      omega
    have hlast : v < 128 := by omega
    unfold varintGroups readGroups
    rw [if_pos hlast]
    refine (Reader.reads_byte _).bind_nil ?_
    rw [hbyte, if_pos hlast]
    exact Reader.reads_pure
  | succ groups ih =>
    rw [varintGroups]
    unfold readGroups
    by_cases hlast : v < 128
    · have hbyte : (UInt8.ofNat v).toNat = v := by
        rw [UInt8.toNat_ofNat']
        omega
      rw [if_pos hlast]
      refine (Reader.reads_byte _).bind_nil ?_
      rw [hbyte, if_pos hlast]
      exact Reader.reads_pure
    · have hbyte : (UInt8.ofNat (v % 128 + 128)).toNat = v % 128 + 128 := by
        rw [UInt8.toNat_ofNat']
        omega
      have hrest : v / 128 < 128 ^ (groups + 1) := by
        rw [Nat.div_lt_iff_lt_mul (by decide), ← Nat.pow_succ]
        exact h
      have hvalue : v % 128 + 128 - 128 + 128 * (v / 128) = v := by omega
      have hread := (ih hrest).bind_pure (g := fun rest => v % 128 + 128 - 128 + 128 * rest)
      rw [hvalue] at hread
      rw [if_neg hlast]
      refine (Reader.reads_byte _).bind ?_
      rw [hbyte, if_neg (by omega)]
      exact hread

theorem reads_varint {v : Nat} (h : v < 2 ^ 64) : Reader.Reads readVarint (encodeVarint v) v :=
  reads_groups (Nat.lt_trans h (by decide))

inductive Record where
  | varint (field value : Nat)
  | bytes (field : Nat) (value : List UInt8)
deriving DecidableEq

namespace Record

def field : Record → Nat
  | varint field _ => field
  | bytes field _ => field

def encode : Record → List UInt8
  | varint field v => .ofNat (field * 8) :: encodeVarint v
  | bytes field b => .ofNat (field * 8 + 2) :: (encodeVarint b.length ++ b)

/-- The tag has one byte, and the value 64 bits. -/
def Fits : Record → Prop
  | varint field v => field < 16 ∧ v < 2 ^ 64
  | bytes field _ => field < 16

instance : (r : Record) → Decidable r.Fits
  | varint field v => inferInstanceAs (Decidable (field < 16 ∧ v < 2 ^ 64))
  | bytes field _ => inferInstanceAs (Decidable (field < 16))

end Record

def encodeAll (records : List Record) : List UInt8 := records.flatMap Record.encode

/-! ## Fields -/

/-- What the records of each field may be. -/
abbrev Fields := Nat → List Record → Prop

def scalar (field v : Nat) : List Record := if v = 0 then [] else [.varint field v]

def string (field : Nat) (b : List UInt8) : List Record := if b = [] then [] else [.bytes field b]

/-- A record for each message, in order. -/
def Messages {α : Type} (field : Nat) (encodes : α → List UInt8 → Prop) (xs : List α)
    (records : List Record) : Prop :=
  List.Forall₂ (fun x r => ∃ b, encodes x b ∧ r = .bytes field b) xs records

/-- The bytes are those of a message with these fields. -/
def Encodes (fields : Fields) (b : List UInt8) : Prop :=
  ∃ records, (∀ field, fields field (records.filter fun r => r.field = field)) ∧
    (∀ r ∈ records, r.Fits) ∧ encodeAll records = b

/-! ## Folds over records -/

section Folds

variable {σ τ : Type} {step : σ → Record → Option σ}

theorem foldlM_component (field : Nat) (part : σ → τ) (change : τ → Record → Option τ)
    (hstep : ∀ st r st', step st r = some st' →
      if r.field = field then change (part st) r = some (part st') else part st' = part st)
    {records : List Record} {st st' : σ} (h : records.foldlM step st = some st') :
    (records.filter fun r => r.field = field).foldlM change (part st) = some (part st') := by
  induction records generalizing st with
  | nil =>
    obtain rfl := Option.some.inj h
    rfl
  | cons r rest ih =>
    rw [List.foldlM_cons] at h
    obtain ⟨st₁, hst₁, h⟩ := Option.bind_eq_some_iff.mp h
    have hr := hstep st r st₁ hst₁
    split at hr
    · next hfield =>
      rw [List.filter_cons_of_pos (by simpa using hfield), List.foldlM_cons, hr]
      exact ih h
    · next hfield =>
      rw [List.filter_cons_of_neg (by simpa using hfield), ← hr]
      exact ih h

theorem foldlM_isSome {records : List Record} (h : ∀ r ∈ records, ∀ st, (step st r).isSome)
    (st : σ) : (records.foldlM step st).isSome := by
  induction records generalizing st with
  | nil => rfl
  | cons r rest ih =>
    rw [List.forall_mem_cons] at h
    obtain ⟨st₁, hst₁⟩ := Option.isSome_iff_exists.mp (h.1 st)
    rw [List.foldlM_cons, hst₁]
    exact ih h.2 st₁

end Folds

/-! ## What a decoder does with the records of one field -/

section OneField

variable {α β : Type}

/-- Keep the last value. -/
def keepVarint (read : Nat → β) (last : β) : Record → Option β
  | .varint _ v => some (read v)
  | .bytes _ _ => some last

def keepBytes (last : List UInt8) : Record → Option (List UInt8)
  | .varint _ _ => some last
  | .bytes _ b => some b

/-- Collect what is read. -/
def collect (read : List UInt8 → Option β) (acc : List β) : Record → Option (List β)
  | .varint _ _ => some acc
  | .bytes _ b => (read b).map fun x => acc ++ [x]

theorem foldlM_scalar (read : Nat → β) (field v : Nat) :
    (scalar field v).foldlM (keepVarint read) (read 0) = some (read v) := by
  unfold scalar
  split
  · next h =>
    rw [h]
    rfl
  · rfl

theorem foldlM_string (field : Nat) (b : List UInt8) :
    (string field b).foldlM keepBytes [] = some b := by
  unfold string
  split
  · next h =>
    rw [h]
    rfl
  · rfl

theorem foldlM_messages {field : Nat} {encodes : α → List UInt8 → Prop} {xs : List α}
    {records : List Record} {read : List UInt8 → Option β} {view : α → β}
    (h : Messages field encodes xs records)
    (hread : ∀ x b, .bytes field b ∈ records → encodes x b → read b = some (view x))
    (acc : List β) : records.foldlM (collect read) acc = some (acc ++ xs.map view) := by
  induction h generalizing acc with
  | nil => rw [List.map_nil, List.append_nil]; rfl
  | @cons x _ _ _ hx _ ih =>
    obtain ⟨b, hb, rfl⟩ := hx
    have hfirst : collect read acc (.bytes field b) = some (acc ++ [view x]) := by
      change (read b).map _ = _
      rw [hread x b List.mem_cons_self hb, Option.map_some]
    rw [List.foldlM_cons, hfirst]
    have hnext := ih (fun x b hmem => hread x b (List.mem_cons_of_mem _ hmem)) (acc ++ [view x])
    rw [List.append_assoc] at hnext
    exact hnext

theorem Messages.encodes_of_mem {field : Nat} {encodes : α → List UInt8 → Prop} {xs : List α}
    {records : List Record} (h : Messages field encodes xs records) {f : Nat} {b : List UInt8}
    (hb : .bytes f b ∈ records) : ∃ x ∈ xs, encodes x b := by
  induction h with
  | nil => exact absurd hb List.not_mem_nil
  | cons hx _ ih =>
    obtain ⟨b', hencodes, rfl⟩ := hx
    rcases List.mem_cons.mp hb with h | h
    · obtain ⟨-, rfl⟩ := Record.bytes.inj h
      exact ⟨_, List.mem_cons_self, hencodes⟩
    · obtain ⟨x, hx, hencodes⟩ := ih h
      exact ⟨x, List.mem_cons_of_mem _ hx, hencodes⟩

end OneField

/-! ## Sizes -/

theorem length_encode_le {records : List Record} {r : Record} (h : r ∈ records) :
    r.encode.length ≤ (encodeAll records).length := by
  obtain ⟨before, behind, rfl⟩ := List.append_of_mem h
  unfold encodeAll
  simp only [List.flatMap_append, List.flatMap_cons, List.length_append]
  omega

theorem length_records_le (records : List Record) : records.length ≤ (encodeAll records).length := by
  induction records with
  | nil => exact Nat.zero_le _
  | cons r rest ih =>
    have hr : 1 ≤ r.encode.length := by
      cases r <;> exact Nat.succ_le_succ (Nat.zero_le _)
    unfold encodeAll
    rw [List.flatMap_cons, List.length_append, List.length_cons]
    unfold encodeAll at ih
    omega

theorem length_bytes_lt {records : List Record} {field : Nat} {b : List UInt8}
    (h : .bytes field b ∈ records) : b.length < (encodeAll records).length := by
  have hle := length_encode_le h
  unfold Record.encode at hle
  rw [List.length_cons, List.length_append] at hle
  omega

end WireFormat
