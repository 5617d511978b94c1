import FrostZm.Ffi.Errors
import FrostZm.Lib.Maps

/-!
# The handle table

Clients of the library hold numbers for objects that stay on its side. An object leaves the
table while a guard has it, and for good when it is taken or freed.
-/

def maxHandles : Nat := 4096

inductive HandleError where
  | nullHandle
  | notFound
  | inUse
  | invalidType
  | tableFull
deriving DecidableEq, Repr

/-- An entry without an object is one whose object a guard has. -/
structure HandleTable (O : Type) where
  /-- `LAST` -/
  last : Int32
  /-- `HMAP` -/
  map : BTreeMap Int32 (Option O)

namespace HandleTable

variable {O : Type}

def empty : HandleTable O := ⟨1, ∅⟩

theorem not_le_zero {x : Int32} : ¬ x ≤ 0 ↔ 0 < x.toInt := by
  rw [Int32.not_le, Int32.lt_iff_toInt_lt]
  rfl

theorem toInt_add_two {x : Int32} (hx : 0 < x.toInt) (hnext : 0 < (x + 2).toInt) :
    (x + 2).toInt = x.toInt + 2 := by
  have h2 : (2 : Int32).toInt = 2 := rfl
  have hlt := x.toInt_lt
  rw [Int32.toInt_add, h2, Int.bmod_def] at hnext ⊢
  split at hnext
  · next h =>
    rw [if_pos h]
    omega
  · omega

/-- The loop in `allocate`: the first number from `last` on that is not taken, and the
counter behind it. The counter starts again at one when it has wrapped, but only once. -/
def probe (taken : Int32 → Bool) (attempts : Nat) (last : Int32) :
    Except HandleError Int32 × Int32 :=
  if last ≤ 0 then
    if attempts + 1 > 1 then (.error .tableFull, 1) else probe taken (attempts + 1) 1
  else if taken last then probe taken attempts (last + 2)
  else (.ok last, last + 2)
termination_by (2 - attempts, if last ≤ 0 then 0 else (2 ^ 31 - last.toInt).toNat)
decreasing_by
  · exact Prod.Lex.left _ _ (by omega)
  · next hpos _ =>
    refine Prod.Lex.right _ ?_
    rw [if_neg hpos]
    rw [not_le_zero] at hpos
    have hlt := last.toInt_lt
    split
    · omega
    · next hnext =>
      rw [not_le_zero] at hnext
      rw [toInt_add_two hpos hnext]
      omega

def allocate (t : HandleTable O) (obj : O) : Except HandleError Int32 × HandleTable O :=
  if t.map.size ≥ maxHandles then (.error .tableFull, t)
  else
    match probe (fun h => h ∈ t.map) 0 t.last with
    | (.error e, last) => (.error e, { t with last })
    | (.ok handle, last) => (.ok handle, { last, map := t.map.insert handle (some obj) })

/-- The object of a handle, which must be of the kind that the caller asks for. -/
def resolve (t : HandleTable O) (isKind : O → Bool) (handle : Int32) : Except HandleError O :=
  if handle = 0 then .error .nullHandle
  else
    match t.map[handle]? with
    | none => .error .notFound
    | some none => .error .inUse
    | some (some obj) => if isKind obj then .ok obj else .error .invalidType

/-- The object in a guard. The entry stays, without it. -/
def get (t : HandleTable O) (isKind : O → Bool) (handle : Int32) :
    Except HandleError (O × HandleTable O) := do
  let obj ← t.resolve isKind handle
  return (obj, { t with map := t.map.insert handle none })

/-- A dropped guard puts its object back. -/
def put (t : HandleTable O) (handle : Int32) (obj : O) : HandleTable O :=
  { t with map := t.map.insert handle (some obj) }

/-- `HandleGuard::into_inner`, which hands the guard's object over. -/
def intoInner (t : HandleTable O) (handle : Int32) : HandleTable O :=
  { t with map := t.map.erase handle }

def take (t : HandleTable O) (isKind : O → Bool) (handle : Int32) :
    Except HandleError (O × HandleTable O) := do
  let obj ← t.resolve isKind handle
  return (obj, { t with map := t.map.erase handle })

def free (t : HandleTable O) (handle : Int32) : Except HandleError (HandleTable O) :=
  if handle ∈ t.map then .ok { t with map := t.map.erase handle } else .error .notFound

/-! ## What each operation does to the objects in the table -/

/-- The object that a handle would give, if nobody has it. -/
def objectAt (t : HandleTable O) (handle : Int32) : Option O := (t.map[handle]?).join

theorem getElem?_insert (m : BTreeMap Int32 (Option O)) (h x : Int32) (o : Option O) :
    (m.insert h o)[x]? = if x = h then some o else m[x]? := by
  rw [Std.ExtTreeMap.getElem?_insert]
  simp only [Std.compare_eq_iff_eq, eq_comm (a := h)]

theorem getElem?_erase (m : BTreeMap Int32 (Option O)) (h x : Int32) :
    (m.erase h)[x]? = if x = h then none else m[x]? := by
  rw [Std.ExtTreeMap.getElem?_erase]
  simp only [Std.compare_eq_iff_eq, eq_comm (a := h)]

variable {t t' : HandleTable O} {obj : O} {handle : Int32} {isKind : O → Bool}

theorem objectAt_put (t : HandleTable O) (handle : Int32) (obj : O) (x : Int32) :
    (t.put handle obj).objectAt x = if x = handle then some obj else t.objectAt x := by
  unfold objectAt put
  rw [getElem?_insert]
  split
  · rfl
  · rfl

theorem objectAt_intoInner (t : HandleTable O) (handle x : Int32) :
    (t.intoInner handle).objectAt x = if x = handle then none else t.objectAt x := by
  unfold objectAt intoInner
  rw [getElem?_erase]
  split
  · rfl
  · rfl

theorem resolve_ok (h : t.resolve isKind handle = .ok obj) :
    t.objectAt handle = some obj ∧ isKind obj = true := by
  unfold resolve at h
  unfold objectAt
  split at h
  · nomatch h
  · split at h
    · nomatch h
    · nomatch h
    · next hent =>
      split at h
      · next hkind =>
        obtain rfl := Except.ok.inj h
        rw [hent]
        exact ⟨rfl, hkind⟩
      · nomatch h

theorem get_ok (h : t.get isKind handle = .ok (obj, t')) :
    t.objectAt handle = some obj ∧ isKind obj = true ∧
      ∀ x, t'.objectAt x = if x = handle then none else t.objectAt x := by
  obtain ⟨o, ho, h⟩ := bind_eq_ok.mp h
  obtain ⟨rfl, rfl⟩ := Prod.mk.inj (Except.ok.inj h)
  obtain ⟨hobj, hkind⟩ := resolve_ok ho
  refine ⟨hobj, hkind, fun x => ?_⟩
  unfold objectAt
  rw [getElem?_insert]
  split
  · rfl
  · rfl

theorem take_ok (h : t.take isKind handle = .ok (obj, t')) :
    t.objectAt handle = some obj ∧ isKind obj = true ∧ t' = t.intoInner handle := by
  obtain ⟨o, ho, h⟩ := bind_eq_ok.mp h
  obtain ⟨rfl, rfl⟩ := Prod.mk.inj (Except.ok.inj h)
  obtain ⟨hobj, hkind⟩ := resolve_ok ho
  exact ⟨hobj, hkind, rfl⟩

theorem free_ok (h : t.free handle = .ok t') : t' = t.intoInner handle := by
  unfold free at h
  split at h
  · exact (Except.ok.inj h).symm
  · nomatch h

theorem probe_ok {taken : Int32 → Bool} {attempts : Nat} {last last' : Int32}
    (h : probe taken attempts last = (.ok handle, last')) : taken handle = false := by
  fun_induction probe taken attempts last with
  | case1 attempts last hle hattempts => nomatch h
  | case2 attempts last hle hattempts ih => exact ih h
  | case3 attempts last hpos htaken ih => exact ih h
  | case4 attempts last hpos htaken =>
    obtain ⟨hlast, -⟩ := Prod.mk.inj h
    rw [← Except.ok.inj hlast]
    simpa using htaken

theorem allocate_ok (h : t.allocate obj = (.ok handle, t')) :
    handle ∉ t.map ∧ ∀ x, t'.objectAt x = if x = handle then some obj else t.objectAt x := by
  unfold allocate at h
  split at h
  · nomatch h
  · split at h
    · nomatch h
    · next hprobe =>
      obtain ⟨hhandle, rfl⟩ := Prod.mk.inj h
      obtain rfl := Except.ok.inj hhandle
      have hfree := probe_ok hprobe
      rw [decide_eq_false_iff_not] at hfree
      exact ⟨hfree, objectAt_put t _ obj⟩

theorem allocate_error {e : HandleError} (h : t.allocate obj = (.error e, t')) : t'.map = t.map := by
  unfold allocate at h
  split at h
  · obtain ⟨-, rfl⟩ := Prod.mk.inj h
    rfl
  · split at h
    · obtain ⟨-, rfl⟩ := Prod.mk.inj h
      rfl
    · nomatch h

/-! ## There is always another handle -/

/-- The counter and the handles are odd, from the first value on. -/
def Odd (x : Int32) : Prop := x.toInt % 2 = 1

theorem odd_one : Odd 1 := rfl

theorem Odd.add_two {x : Int32} (h : Odd x) : Odd (x + 2) := by
  have h2 : (2 : Int32).toInt = 2 := rfl
  unfold Odd at h ⊢
  rw [Int32.toInt_add, h2, Int.bmod_def]
  split
  · omega
  · omega

theorem probe_ok_odd {taken : Int32 → Bool} {attempts : Nat} {last last' : Int32} (hodd : Odd last)
    (h : probe taken attempts last = (.ok handle, last')) :
    0 < handle.toInt ∧ Odd handle ∧ Odd last' := by
  fun_induction probe taken attempts last with
  | case1 attempts last hle hattempts => nomatch h
  | case2 attempts last hle hattempts ih => exact ih odd_one h
  | case3 attempts last hpos htaken ih => exact ih hodd.add_two h
  | case4 attempts last hpos htaken =>
    obtain ⟨hhandle, rfl⟩ := Prod.mk.inj h
    obtain rfl := Except.ok.inj hhandle
    exact ⟨not_le_zero.mp hpos, hodd, hodd.add_two⟩

/-- On its second way the loop gives up only behind the last odd number. -/
theorem taken_of_probe_error {taken : Int32 → Bool} {attempts : Nat} {last last' : Int32}
    {e : HandleError} (hattempts : 1 ≤ attempts) (hodd : Odd last) (hlast : 0 < last.toInt)
    (h : probe taken attempts last = (.error e, last')) (x : Int32) (hx : Odd x)
    (hle : last.toInt ≤ x.toInt) : taken x = true := by
  fun_induction probe taken attempts last with
  | case1 attempts last hneg => exact absurd hneg (not_le_zero.mpr hlast)
  | case2 attempts last hneg => exact absurd hneg (not_le_zero.mpr hlast)
  | case3 attempts last hpos htaken ih =>
    by_cases heq : x.toInt = last.toInt
    · rwa [Int32.toInt_inj.mp heq]
    have hnext : last.toInt + 2 ≤ x.toInt := by
      unfold Odd at hodd hx
      omega
    have hwrap : 0 < (last + 2).toInt := by
      have h2 : (2 : Int32).toInt = 2 := rfl
      have hlt := x.toInt_lt
      rw [Int32.toInt_add, h2, Int.bmod_def]
      split
      · omega
      · omega
    refine ih hattempts hodd.add_two hwrap h ?_
    rwa [toInt_add_two hlast hwrap]
  | case4 attempts last hpos htaken => nomatch h

/-- The loop gives up only if every positive odd number is taken. -/
theorem probe_error {taken : Int32 → Bool} {attempts : Nat} {last last' : Int32} {e : HandleError}
    (hattempts : attempts = 0) (hodd : Odd last) (h : probe taken attempts last = (.error e, last'))
    (x : Int32) (hx : Odd x) (hpos : 0 < x.toInt) : taken x = true := by
  fun_induction probe taken attempts last with
  | case1 attempts last hle hmore => omega
  | case2 attempts last hle hmore ih =>
    exact taken_of_probe_error (Nat.le_add_left 1 attempts) odd_one Int.one_pos h x hx hpos
  | case3 attempts last hle htaken ih => exact ih hattempts hodd.add_two h
  | case4 attempts last hle htaken => nomatch h

/-- The first odd numbers, as many as there is room for. -/
def firstHandles : List Int32 := (List.range maxHandles).map fun i => .ofNat (2 * i + 1)

theorem toInt_handle {i : Nat} (hi : i < maxHandles) : (Int32.ofNat (2 * i + 1)).toInt = 2 * i + 1 := by
  unfold maxHandles at hi
  rw [Int32.toInt_ofNat_of_lt (by omega)]
  omega

theorem nodup_firstHandles : firstHandles.Nodup := by
  refine List.Nodup.map_on (fun i hi j hj h => ?_) List.nodup_range
  have hint := congrArg Int32.toInt h
  rw [toInt_handle (List.mem_range.mp hi), toInt_handle (List.mem_range.mp hj)] at hint
  omega

theorem maxHandles_le_size {m : BTreeMap Int32 (Option O)}
    (h : ∀ x, Odd x → 0 < x.toInt → x ∈ m) : maxHandles ≤ m.size := by
  have hlength : firstHandles.length = maxHandles := by simp [firstHandles]
  rw [← hlength]
  refine BTreeMap.length_le_size nodup_firstHandles fun k hk => ?_
  obtain ⟨i, hi, rfl⟩ := List.mem_map.mp hk
  have hint := toInt_handle (List.mem_range.mp hi)
  refine h _ ?_ ?_
  · unfold Odd
    omega
  · omega

theorem allocate_of_full (hfull : maxHandles ≤ t.map.size) (obj : O) :
    t.allocate obj = (.error .tableFull, t) :=
  if_pos hfull

theorem exists_probe_of_room (hodd : Odd t.last) (hroom : t.map.size < maxHandles) :
    ∃ handle last, probe (fun h => h ∈ t.map) 0 t.last = (.ok handle, last) := by
  cases hprobe : probe (fun h => h ∈ t.map) 0 t.last with
  | mk answer last =>
    cases answer with
    | ok handle => exact ⟨handle, last, rfl⟩
    | error e =>
      have hall : ∀ x, Odd x → 0 < x.toInt → x ∈ t.map := fun x hx hpos =>
        of_decide_eq_true (probe_error rfl hodd hprobe x hx hpos)
      exact absurd (maxHandles_le_size hall) (Nat.not_le.mpr hroom)

/-- What `allocate` leaves behind when it has put the object under a handle. -/
structure Allocated (t : HandleTable O) (obj : O) (handle : Int32) (t' : HandleTable O) : Prop where
  pos : 0 < handle.toInt
  odd : Odd handle
  fresh : handle ∉ t.map
  entry : t'.map[handle]? = some (some obj)
  others : ∀ x, x ≠ handle → t'.map[x]? = t.map[x]?
  last : Odd t'.last

/-- Only a full table refuses an object. Any other has a new handle for it, wherever the counter
is. -/
theorem allocate_total (t : HandleTable O) (obj : O) (hodd : Odd t.last) :
    ((t.allocate obj).1 = .error .tableFull ↔ maxHandles ≤ t.map.size) ∧
      (maxHandles ≤ t.map.size → (t.allocate obj).2 = t) ∧
      (t.map.size < maxHandles → ∃ handle t', t.allocate obj = (.ok handle, t') ∧
        Allocated t obj handle t') := by
  have hallocated : t.map.size < maxHandles → ∃ handle t', t.allocate obj = (.ok handle, t') ∧
      Allocated t obj handle t' := by
    intro hroom
    obtain ⟨handle, last, hprobe⟩ := exists_probe_of_room hodd hroom
    obtain ⟨hpos, hhandle, hlast⟩ := probe_ok_odd hodd hprobe
    refine ⟨handle, { last, map := t.map.insert handle (some obj) }, ?_, {
      pos := hpos
      odd := hhandle
      fresh := of_decide_eq_false (probe_ok hprobe)
      entry := by rw [getElem?_insert, if_pos rfl]
      others := fun x hx => by rw [getElem?_insert, if_neg hx]
      last := hlast }⟩
    unfold allocate
    rw [if_neg (Nat.not_le.mpr hroom), hprobe]
  refine ⟨⟨fun h => ?_, fun hfull => ?_⟩, fun hfull => ?_, hallocated⟩
  · by_contra hroom
    obtain ⟨handle, t', hok, -⟩ := hallocated (Nat.not_le.mp hroom)
    rw [hok] at h
    cases h
  · rw [allocate_of_full hfull]
  · rw [allocate_of_full hfull]

/-- The counter is about to wrap, and the last and the first odd number are taken. -/
def atWrap : HandleTable Nat :=
  ⟨Int32.maxValue, ((∅ : BTreeMap Int32 (Option Nat)).insert Int32.maxValue none).insert 1 none⟩

theorem size_atWrap : atWrap.map.size < maxHandles := by
  have hone : ((∅ : BTreeMap Int32 (Option Nat)).insert Int32.maxValue none).size ≤ 1 :=
    Std.ExtTreeMap.size_insert_le.trans (Nat.succ_le_succ (Nat.le_of_eq Std.ExtTreeMap.size_empty))
  have htwo : atWrap.map.size ≤ 2 := Std.ExtTreeMap.size_insert_le.trans (Nat.succ_le_succ hone)
  exact lt_of_le_of_lt htwo (by decide)

theorem allocate_total_atWrap :
    ∃ handle t', atWrap.allocate 7 = (.ok handle, t') ∧ Allocated atWrap 7 handle t' :=
  (allocate_total atWrap 7 rfl).2.2 size_atWrap

end HandleTable
