import FrostZm.Lib.LittleEndian
import FrostZm.Lib.Readers

/-!
# Scripts

A script is a row of opcodes. Up to 75 an opcode is the number of bytes that it pushes; the three
behind say in how many bytes that number follows.
-/

open Reader

namespace Script

inductive Op where
  | push (data : List UInt8)
  | other (opcode : UInt8)
deriving DecidableEq

/-- Data behind its length in so many bytes. -/
def readPushData (width : Nat) : Reader Op := do
  let len ← bytes width
  let data ← bytes (LittleEndian.value len)
  return .push data

def readOp : Reader Op := do
  let opcode ← byte
  if opcode.toNat ≤ 75 then
    let data ← bytes opcode.toNat
    return .push data
  else if opcode = 76 then readPushData 1
  else if opcode = 77 then readPushData 2
  else if opcode = 78 then readPushData 4
  else return .other opcode

/-- At most so many opcodes, up to the end. -/
def readOps : Nat → List UInt8 → Option (List Op)
  | _, [] => some []
  | 0, _ :: _ => none
  | n + 1, b :: script => do
    let (op, rest) ← readOp (b :: script)
    let ops ← readOps n rest
    return op :: ops

/-- An opcode has a byte, so the length of the script is enough. -/
def ops (script : List UInt8) : Option (List Op) := readOps script.length script

variable {script rest data : List UInt8} {op : Op} {n : Nat}

/-! ## Direct pushes -/

theorem reads_direct (h : data.length ≤ 75) :
    Reads readOp (.ofNat data.length :: data) (.push data) := by
  have hbyte : (UInt8.ofNat data.length).toNat = data.length := by
    rw [UInt8.toNat_ofNat']
    omega
  refine (reads_byte _).bind ?_
  rw [if_pos (hbyte.trans_le h), hbyte]
  exact (reads_bytes rfl).bind_pure

theorem readOps_cons {b : UInt8} {opcodes : List Op} (hop : readOp (b :: script) = some (op, rest))
    (hrest : readOps n rest = some opcodes) : readOps (n + 1) (b :: script) = some (op :: opcodes) := by
  rw [readOps, hop]
  change (readOps n rest).bind _ = _
  rw [hrest]
  rfl

theorem ops_direct {data' : List UInt8} (h : data.length ≤ 75) (h' : data'.length ≤ 75) :
    ops (.ofNat data.length :: data ++ .ofNat data'.length :: data') =
      some [.push data, .push data'] := by
  have hfirst := reads_direct h (.ofNat data'.length :: data')
  have hsecond := reads_direct h' []
  rw [List.append_nil] at hsecond
  have hlen : (data ++ .ofNat data'.length :: data').length = data.length + data'.length + 1 := by
    rw [List.length_append, List.length_cons]
    omega
  unfold ops
  rw [List.cons_append, List.length_cons, hlen]
  exact readOps_cons hfirst (readOps_cons hsecond (by rw [readOps]))

/-! ## What a push takes -/

theorem length_of_readPushData {width : Nat}
    (h : readPushData width script = some (.push data, rest)) :
    width + data.length + rest.length = script.length := by
  unfold readPushData at h
  obtain ⟨len, s, hlen, h⟩ := bind_eq_some.mp h
  obtain ⟨got, s', hgot, h⟩ := bind_eq_some.mp h
  obtain ⟨hop, rfl⟩ := Prod.mk.inj (Option.some.inj h)
  obtain rfl := Op.push.inj hop
  obtain ⟨hwidth, rfl⟩ := bytes_eq_some.mp hlen
  obtain ⟨-, rfl⟩ := bytes_eq_some.mp hgot
  rw [List.length_append, List.length_append, hwidth, Nat.add_assoc]

theorem length_of_push (h : readOp script = some (.push data, rest)) :
    1 + data.length + rest.length ≤ script.length ∧
      (75 < data.length → 2 + data.length + rest.length ≤ script.length) := by
  unfold readOp at h
  obtain ⟨opcode, s, hbyte, h⟩ := bind_eq_some.mp h
  have hscript : script.length = 1 + s.length := by
    cases script with
    | nil => cases hbyte
    | cons b script =>
      obtain ⟨-, rfl⟩ := Prod.mk.inj (Option.some.inj hbyte)
      rw [List.length_cons, Nat.add_comm]
  split at h
  · next hdirect =>
    obtain ⟨got, s', hgot, h⟩ := bind_eq_some.mp h
    obtain ⟨hop, rfl⟩ := Prod.mk.inj (Option.some.inj h)
    obtain rfl := Op.push.inj hop
    obtain ⟨hlen, rfl⟩ := bytes_eq_some.mp hgot
    rw [List.length_append] at hscript
    omega
  split at h
  · have hlen := length_of_readPushData h
    omega
  split at h
  · have hlen := length_of_readPushData h
    omega
  split at h
  · have hlen := length_of_readPushData h
    omega
  · obtain ⟨hop, -⟩ := Prod.mk.inj (Option.some.inj h)
    cases hop

theorem readOps_eq_cons {opcodes : List Op} (h : readOps n script = some (op :: opcodes)) :
    ∃ m rest, readOp script = some (op, rest) ∧ readOps m rest = some opcodes := by
  cases script with
  | nil =>
    rw [readOps] at h
    cases h
  | cons b script =>
    cases n with
    | zero => cases h
    | succ n =>
      rw [readOps] at h
      obtain ⟨⟨op', rest⟩, hop, h⟩ := Option.bind_eq_some_iff.mp h
      obtain ⟨ops', hrest, h⟩ := Option.bind_eq_some_iff.mp h
      obtain ⟨rfl, rfl⟩ := List.cons.inj (Option.some.inj h)
      exact ⟨n, rest, hop, hrest⟩

theorem length_of_pushes {data' : List UInt8} (h : ops script = some [.push data, .push data']) :
    2 + data.length + data'.length ≤ script.length ∧
      (75 < data.length → 3 + data.length + data'.length ≤ script.length) := by
  obtain ⟨m, rest, hfirst, h⟩ := readOps_eq_cons h
  obtain ⟨m', rest', hsecond, -⟩ := readOps_eq_cons h
  have hfirst := length_of_push hfirst
  have hsecond := length_of_push hsecond
  omega

end Script
