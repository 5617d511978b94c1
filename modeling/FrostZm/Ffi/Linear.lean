import FrostZm.Ffi.Handle
import FrostZm.Lib.Runs

/-!
# Who has an object

An object that was allocated is in the table, in one guard or with one caller, and a handle
that was given up leads nowhere. That holds as long as nobody frees a handle whose object is
in a guard: the guard puts the object back when it is dropped.
-/

namespace HandleCalls

variable {O : Type}

/-- The table with everything that was taken out of it. Each object carries the number of the
call that allocated it, which the table does not know. -/
structure State (O : Type) where
  table : HandleTable (Nat × O)
  guards : List (Int32 × Nat × O)
  /-- What callers have for good. -/
  handed : List Nat
  freed : List Nat
  created : Nat

inductive Action (O : Type) where
  | allocate (obj : O)
  | get (isKind : O → Bool) (handle : Int32)
  | dropGuard (i : Nat)
  | intoInner (i : Nat)
  | take (isKind : O → Bool) (handle : Int32)
  | free (handle : Int32)

namespace State

def init : State O := ⟨.empty, [], [], [], 0⟩

/-- A call that returns an error changes nothing but the counter of `allocate`. -/
def step (st : State O) : Action O → Option (State O)
  | .allocate obj =>
    match st.table.allocate (st.created, obj) with
    | (.error _, table) => some { st with table }
    | (.ok _, table) => some { st with table, created := st.created + 1 }
  | .get isKind handle =>
    match st.table.get (isKind ∘ Prod.snd) handle with
    | .error _ => some st
    | .ok (obj, table) => some { st with table, guards := (handle, obj) :: st.guards }
  | .dropGuard i =>
    match st.guards[i]? with
    | none => none
    | some (handle, obj) => some { st with
        table := st.table.put handle obj
        guards := st.guards.eraseIdx i }
  | .intoInner i =>
    match st.guards[i]? with
    | none => none
    | some (handle, obj) => some { st with
        table := st.table.intoInner handle
        guards := st.guards.eraseIdx i
        handed := obj.1 :: st.handed }
  | .take isKind handle =>
    match st.table.take (isKind ∘ Prod.snd) handle with
    | .error _ => some st
    | .ok (obj, table) => some { st with table, handed := obj.1 :: st.handed }
  | .free handle =>
    match st.table.free handle with
    | .error _ => some st
    | .ok table => some { st with
        table
        freed := ((st.table.objectAt handle).map Prod.fst).toList ++ st.freed }

abbrev run (acts : List (Action O)) : Option (State O) := Runs.run step init acts

/-! ## Linearity -/

/-- The action gives up the handle, and succeeds. -/
def Retires (st : State O) (handle : Int32) : Action O → Prop
  | .take isKind h => h = handle ∧ ∃ r, st.table.take (isKind ∘ Prod.snd) h = .ok r
  | .intoInner i => ∃ obj, st.guards[i]? = some (handle, obj)
  | .free h => h = handle ∧ ∃ table, st.table.free h = .ok table
  | _ => False

/-- The action is an `allocate` that returns the handle. -/
def Returns (st : State O) (handle : Int32) : Action O → Prop
  | .allocate obj => (st.table.allocate (st.created, obj)).1 = .ok handle
  | _ => False

/-- The objects that the table holds itself. -/
def inTable (table : HandleTable (Nat × O)) : List Nat :=
  table.map.toList.filterMap fun e => e.2.map Prod.fst

/-- The objects in each of the places. -/
def places (st : State O) : List Nat :=
  inTable st.table ++ st.guards.map (fun g => g.2.1) ++ st.handed ++ st.freed

/-- What is promised of a run. The objects in their places are those that were allocated, each
of them once. -/
structure Linear (acts : List (Action O)) : Prop where
  retired : ∀ pre a mid handle u v st, pre ++ a :: mid <+: acts → run pre = some u →
    Retires u handle a → step u a = some v → Runs.Guarded step (fun s b => ¬ Returns s handle b) v mid →
    Runs.run step v mid = some st → st.table.objectAt handle = none
  onePlace : ∀ pre st, pre <+: acts → run pre = some st → st.places.Perm (List.range st.created)
  bounded : ∀ pre st, pre <+: acts → run pre = some st → st.table.map.size ≤ maxHandles

/-- Nobody frees a handle while a guard has its object. -/
def Meets (st : State O) : Action O → Prop
  | .free handle => ∀ g ∈ st.guards, g.1 ≠ handle
  | _ => True

abbrev MeetsAll (acts : List (Action O)) : Prop := Runs.Guarded step Meets init acts

/-! ## Guards keep their entries -/

structure Inv (st : State O) : Prop where
  /-- The entry of a guard's handle is there, and empty. -/
  guards : ∀ g ∈ st.guards, st.table.map[g.1]? = some none
  nodup : (st.guards.map Prod.fst).Nodup
  places : st.places.Perm (List.range st.created)
  bounded : st.table.map.size ≤ maxHandles

variable {st st' : State O} {handle : Int32}

theorem inTable_of_getElem? {t : HandleTable (Nat × O)} {e : Option (Nat × O)}
    (h : t.map[handle]? = some e) :
    (inTable t).Perm ((e.map Prod.fst).toList ++ inTable (t.intoInner handle)) := by
  have hperm := (BTreeMap.toList_perm_of_getElem? h).filterMap fun e => e.2.map Prod.fst
  cases e with
  | none => simpa [inTable, HandleTable.intoInner] using hperm
  | some obj => simpa [inTable, HandleTable.intoInner] using hperm

theorem inTable_insert (t : HandleTable (Nat × O)) (handle : Int32) (e : Option (Nat × O)) :
    (inTable { t with map := t.map.insert handle e }).Perm
      ((e.map Prod.fst).toList ++ inTable (t.intoInner handle)) := by
  have h : (t.map.insert handle e)[handle]? = some e := Std.ExtTreeMap.getElem?_insert_self
  refine (inTable_of_getElem? (t := { t with map := t.map.insert handle e }) h).trans ?_
  simp only [HandleTable.intoInner, BTreeMap.erase_insert]
  exact List.Perm.refl _

theorem inv_init : Inv (init : State O) where
  guards := nofun
  nodup := List.nodup_nil
  places := by simp [init, State.places, inTable, HandleTable.empty]
  bounded := Nat.zero_le _

theorem Inv.allocate_ok (hi : Inv st) {obj : O} {table : HandleTable (Nat × O)}
    (h : st.table.allocate (st.created, obj) = (.ok handle, table)) :
    Inv { st with table, created := st.created + 1 } := by
  obtain ⟨hnew, hsize, last, rfl⟩ : handle ∉ st.table.map ∧ st.table.map.size < maxHandles ∧
      ∃ last, table = { last, map := st.table.map.insert handle (some (st.created, obj)) } := by
    refine ⟨(HandleTable.allocate_ok h).1, ?_⟩
    unfold HandleTable.allocate at h
    split at h
    · nomatch h
    · next hlt =>
      split at h
      · nomatch h
      · next last hprobe =>
        obtain ⟨hhandle, rfl⟩ := Prod.mk.inj h
        obtain rfl := Except.ok.inj hhandle
        exact ⟨Nat.lt_of_not_le hlt, last, rfl⟩
  constructor
  · intro g hg
    have hmem := hi.guards g hg
    have hne : g.1 ≠ handle := by
      rintro rfl
      exact hnew (Std.ExtTreeMap.mem_iff_isSome_getElem?.mpr (by rw [hmem]; rfl))
    simp only [HandleTable.getElem?_insert, hne, if_false, hmem]
  · exact hi.nodup
  · have hold : st.table.intoInner handle = st.table := by
      unfold HandleTable.intoInner
      rw [BTreeMap.erase_of_not_mem hnew]
    have htable := inTable_insert st.table handle (some (st.created, obj))
    rw [hold] at htable
    -- the new object comes before those that were there
    refine (((htable.append_right _).append_right _).append_right _).trans ?_
    rw [List.range_succ]
    exact (hi.places.cons _).trans (List.perm_append_singleton _ _).symm
  · exact Std.ExtTreeMap.size_insert_le.trans hsize

theorem size_insert_of_getElem? {t : HandleTable (Nat × O)} {e e' : Option (Nat × O)}
    (h : t.map[handle]? = some e) : (t.map.insert handle e').size = t.map.size := by
  have hmem : handle ∈ t.map := Std.ExtTreeMap.mem_iff_isSome_getElem?.mpr (by rw [h]; rfl)
  rw [Std.ExtTreeMap.size_insert, if_pos (Std.ExtTreeMap.mem_iff_contains.mp hmem)]

theorem resolve_ok {t : HandleTable (Nat × O)} {isKind : Nat × O → Bool} {obj : Nat × O}
    (h : t.resolve isKind handle = .ok obj) : t.map[handle]? = some (some obj) :=
  Option.join_eq_some_iff.mp (HandleTable.resolve_ok h).1

theorem Inv.get_ok (hi : Inv st) {isKind : Nat × O → Bool} {obj : Nat × O}
    {table : HandleTable (Nat × O)} (h : st.table.get isKind handle = .ok (obj, table)) :
    Inv { st with table, guards := (handle, obj) :: st.guards } := by
  obtain ⟨o, ho, h⟩ := bind_eq_ok.mp h
  obtain ⟨rfl, rfl⟩ := Prod.mk.inj (Except.ok.inj h)
  have hent := resolve_ok ho
  have hne : ∀ g ∈ st.guards, g.1 ≠ handle := by
    rintro g hg rfl
    rw [hi.guards g hg] at hent
    nomatch hent
  constructor
  · rw [List.forall_mem_cons]
    refine ⟨Std.ExtTreeMap.getElem?_insert_self, fun g hg => ?_⟩
    rw [HandleTable.getElem?_insert, if_neg (hne g hg)]
    exact hi.guards g hg
  · rw [List.map_cons, List.nodup_cons, List.mem_map]
    refine ⟨?_, hi.nodup⟩
    rintro ⟨g, hg, hgh⟩
    exact hne g hg hgh
  · refine List.Perm.trans ?_ hi.places
    rw [List.perm_iff_count]
    intro s
    have hbefore := (inTable_of_getElem? hent).count_eq s
    have hafter := (inTable_insert st.table handle none).count_eq s
    simp only [Option.map_some, Option.map_none, Option.toList_some, Option.toList_none,
      List.count_append, List.count_cons, List.count_nil] at hbefore hafter
    simp only [State.places, List.map_cons, List.count_append, List.count_cons]
    omega
  · exact (size_insert_of_getElem? hent).trans_le hi.bounded

theorem guards_perm {i : Nat} {g : Int32 × Nat × O} (h : st.guards[i]? = some g) :
    st.guards.Perm (g :: st.guards.eraseIdx i) := by
  obtain ⟨hi, rfl⟩ := List.getElem?_eq_some_iff.mp h
  exact (List.getElem_cons_eraseIdx_perm hi).symm

theorem Inv.ne_of_eraseIdx (hi : Inv st) {i : Nat} {obj : Nat × O}
    (h : st.guards[i]? = some (handle, obj)) :
    (∀ g ∈ st.guards.eraseIdx i, g.1 ≠ handle) ∧ ((st.guards.eraseIdx i).map Prod.fst).Nodup := by
  have hnodup := ((guards_perm h).map Prod.fst).nodup_iff.mp hi.nodup
  rw [List.map_cons, List.nodup_cons, List.mem_map] at hnodup
  refine ⟨fun g hg hgh => hnodup.1 ⟨g, hg, hgh⟩, hnodup.2⟩

theorem Inv.dropGuard (hi : Inv st) {i : Nat} {obj : Nat × O}
    (h : st.guards[i]? = some (handle, obj)) :
    Inv { st with table := st.table.put handle obj, guards := st.guards.eraseIdx i } := by
  have hent := hi.guards _ (List.mem_of_getElem? h)
  obtain ⟨hne, hnodup⟩ := hi.ne_of_eraseIdx h
  constructor
  · intro g hg
    simp only [HandleTable.put]
    rw [HandleTable.getElem?_insert, if_neg (hne g hg)]
    exact hi.guards g (List.mem_of_mem_eraseIdx hg)
  · exact hnodup
  · refine List.Perm.trans ?_ hi.places
    rw [List.perm_iff_count]
    intro s
    have hbefore := (inTable_of_getElem? hent).count_eq s
    have hafter := (inTable_insert st.table handle (some obj)).count_eq s
    have hguards := ((guards_perm h).map fun g => g.2.1).count_eq s
    simp only [Option.map_some, Option.map_none, Option.toList_some, Option.toList_none,
      List.map_cons, List.count_append, List.count_cons, List.count_nil] at hbefore hafter hguards
    simp only [State.places, HandleTable.put, List.count_append]
    omega
  · exact (size_insert_of_getElem? hent).trans_le hi.bounded

theorem Inv.erase (hi : Inv st) {e : Option (Nat × O)} (hent : st.table.map[handle]? = some e)
    {guards : List (Int32 × Nat × O)} {handed freed : List Nat}
    (hne : ∀ g ∈ guards, g ∈ st.guards ∧ g.1 ≠ handle) (hnodup : (guards.map Prod.fst).Nodup)
    (hplaces : ((e.map Prod.fst).toList ++ st.guards.map (fun g => g.2.1) ++ st.handed ++
      st.freed).Perm (guards.map (fun g => g.2.1) ++ handed ++ freed)) :
    Inv { st with table := st.table.intoInner handle, guards, handed, freed } := by
  constructor
  · intro g hg
    simp only [HandleTable.intoInner]
    rw [HandleTable.getElem?_erase, if_neg (hne g hg).2]
    exact hi.guards g (hne g hg).1
  · exact hnodup
  · refine List.Perm.trans ?_ hi.places
    rw [List.perm_iff_count]
    intro s
    have hbefore := (inTable_of_getElem? hent).count_eq s
    have hafter := hplaces.count_eq s
    simp only [List.count_append] at hbefore hafter
    simp only [State.places, List.count_append]
    omega
  · exact Std.ExtTreeMap.size_erase_le.trans hi.bounded

theorem inv_step {a : Action O} (hi : Inv st) (hmeets : Meets st a) (h : step st a = some st') :
    Inv st' := by
  cases a with
  | allocate obj =>
    simp only [step] at h
    split at h
    · next e table halloc =>
      obtain rfl := Option.some.inj h
      have hmap := HandleTable.allocate_error halloc
      refine ⟨?_, hi.nodup, ?_, ?_⟩
      · simpa only [hmap] using hi.guards
      · have hplaces := hi.places
        unfold State.places inTable at hplaces ⊢
        rwa [hmap]
      · simpa only [hmap] using hi.bounded
    · next handle table halloc =>
      obtain rfl := Option.some.inj h
      exact hi.allocate_ok halloc
  | get isKind handle =>
    simp only [step] at h
    split at h
    · exact Option.some.inj h ▸ hi
    · next obj table hget =>
      obtain rfl := Option.some.inj h
      exact hi.get_ok hget
  | dropGuard i =>
    simp only [step] at h
    split at h
    · nomatch h
    · next handle obj hg =>
      obtain rfl := Option.some.inj h
      exact hi.dropGuard hg
  | intoInner i =>
    simp only [step] at h
    split at h
    · nomatch h
    · next handle obj hg =>
      obtain rfl := Option.some.inj h
      obtain ⟨hne, hnodup⟩ := hi.ne_of_eraseIdx hg
      refine hi.erase (hi.guards _ (List.mem_of_getElem? hg))
        (fun g hg => ⟨List.mem_of_mem_eraseIdx hg, hne g hg⟩) hnodup ?_
      have hguards := (guards_perm hg).map fun g => g.2.1
      simp only [Option.map_none, Option.toList_none, List.nil_append]
      refine List.Perm.append_right _ ((hguards.append_right _).trans ?_)
      exact List.perm_middle.symm
  | take isKind handle =>
    simp only [step] at h
    split at h
    · exact Option.some.inj h ▸ hi
    · next obj table htake =>
      obtain rfl := Option.some.inj h
      obtain ⟨o, ho, htake⟩ := bind_eq_ok.mp htake
      obtain ⟨rfl, rfl⟩ := Prod.mk.inj (Except.ok.inj htake)
      have hent := resolve_ok ho
      refine hi.erase hent (fun g hg => ⟨hg, ?_⟩) hi.nodup ?_
      · rintro rfl
        rw [hi.guards g hg] at hent
        nomatch hent
      · simp only [Option.map_some, Option.toList_some]
        exact List.Perm.append_right _ List.perm_middle.symm
  | free handle =>
    simp only [step] at h
    split at h
    · exact Option.some.inj h ▸ hi
    · next table hfree =>
      obtain rfl := Option.some.inj h
      obtain rfl := HandleTable.free_ok hfree
      have hmem : handle ∈ st.table.map := by
        unfold HandleTable.free at hfree
        split at hfree
        · next hmem => exact hmem
        · nomatch hfree
      obtain ⟨e, hent⟩ := Option.isSome_iff_exists.mp
        (Std.ExtTreeMap.mem_iff_isSome_getElem?.mp hmem)
      have hobj : st.table.objectAt handle = e := by
        unfold HandleTable.objectAt
        rw [hent]
        rfl
      rw [hobj]
      refine hi.erase hent (fun g hg => ⟨hg, hmeets g hg⟩) hi.nodup ?_
      rw [List.perm_iff_count]
      intro s
      simp only [List.count_append]
      omega

theorem inv_run {acts : List (Action O)} (hmeets : MeetsAll acts) (h : run acts = some st) : Inv st :=
  Runs.inv_of_guarded Inv inv_init (fun _ _ _ hi hm hs => inv_step hi hm hs) hmeets h

/-! ## A handle that was given up -/

theorem not_mem_of_retires {a : Action O} (hret : Retires st handle a)
    (h : step st a = some st') : handle ∉ st'.table.map := by
  have hgone : handle ∉ (st.table.intoInner handle).map := by
    rw [HandleTable.intoInner, Std.ExtTreeMap.mem_erase]
    exact fun hmem => hmem.1 Std.ReflCmp.compare_self
  cases a with
  | take isKind h' =>
    obtain ⟨rfl, ⟨obj, table⟩, htake⟩ := hret
    simp only [step, htake] at h
    obtain rfl := Option.some.inj h
    exact (HandleTable.take_ok htake).2.2 ▸ hgone
  | intoInner i =>
    obtain ⟨obj, hg⟩ := hret
    simp only [step, hg] at h
    exact Option.some.inj h ▸ hgone
  | free h' =>
    obtain ⟨rfl, table, hfree⟩ := hret
    simp only [step, hfree] at h
    obtain rfl := Option.some.inj h
    exact HandleTable.free_ok hfree ▸ hgone
  | allocate obj => exact hret.elim
  | get isKind h' => exact hret.elim
  | dropGuard i => exact hret.elim

theorem not_mem_insert {m : BTreeMap Int32 (Option (Nat × O))} {h : Int32}
    {e : Option (Nat × O)} (hne : h ≠ handle) (hnot : handle ∉ m) : handle ∉ m.insert h e := by
  rw [Std.ExtTreeMap.mem_insert, Std.compare_eq_iff_eq]
  exact fun hmem => hmem.elim hne hnot

theorem ne_of_getElem? {m : BTreeMap Int32 (Option (Nat × O))} {h : Int32}
    {e : Option (Nat × O)} (hent : m[h]? = some e) (hnot : handle ∉ m) : h ≠ handle := by
  rintro rfl
  exact hnot (Std.ExtTreeMap.mem_iff_isSome_getElem?.mpr (by rw [hent]; rfl))

theorem not_mem_step {a : Action O} (hi : Inv st) (hnot : handle ∉ st.table.map)
    (hret : ¬ Returns st handle a) (h : step st a = some st') : handle ∉ st'.table.map := by
  have herase : ∀ h', handle ∉ (st.table.intoInner h').map := fun h' hmem =>
    hnot (Std.ExtTreeMap.mem_of_mem_erase hmem)
  cases a with
  | allocate obj =>
    simp only [step] at h
    split at h
    · next e table halloc =>
      obtain rfl := Option.some.inj h
      rwa [HandleTable.allocate_error halloc]
    · next h' table halloc =>
      obtain rfl := Option.some.inj h
      have hne : h' ≠ handle := by
        rintro rfl
        exact hret (by rw [Returns, halloc])
      unfold HandleTable.allocate at halloc
      split at halloc
      · nomatch halloc
      · split at halloc
        · nomatch halloc
        · obtain ⟨hh, rfl⟩ := Prod.mk.inj halloc
          obtain rfl := Except.ok.inj hh
          exact not_mem_insert hne hnot
  | get isKind h' =>
    simp only [step] at h
    split at h
    · exact Option.some.inj h ▸ hnot
    · next obj table hget =>
      obtain rfl := Option.some.inj h
      obtain ⟨o, ho, hget⟩ := bind_eq_ok.mp hget
      obtain ⟨rfl, rfl⟩ := Prod.mk.inj (Except.ok.inj hget)
      exact not_mem_insert (ne_of_getElem? (resolve_ok ho) hnot) hnot
  | dropGuard i =>
    simp only [step] at h
    split at h
    · nomatch h
    · next h' obj hg =>
      obtain rfl := Option.some.inj h
      exact not_mem_insert (ne_of_getElem? (hi.guards _ (List.mem_of_getElem? hg)) hnot) hnot
  | intoInner i =>
    simp only [step] at h
    split at h
    · nomatch h
    · exact Option.some.inj h ▸ herase _
  | take isKind h' =>
    simp only [step] at h
    split at h
    · exact Option.some.inj h ▸ hnot
    · next obj table htake =>
      obtain rfl := Option.some.inj h
      exact (HandleTable.take_ok htake).2.2 ▸ herase h'
  | free h' =>
    simp only [step] at h
    split at h
    · exact Option.some.inj h ▸ hnot
    · next table hfree =>
      obtain rfl := Option.some.inj h
      exact HandleTable.free_ok hfree ▸ herase h'

theorem objectAt_of_not_mem {t : HandleTable (Nat × O)} (h : handle ∉ t.map) :
    t.objectAt handle = none := by
  unfold HandleTable.objectAt
  rw [Std.ExtTreeMap.getElem?_eq_none h]
  rfl

theorem linear_of_meets {acts : List (Action O)} (h : MeetsAll acts) : Linear acts where
  onePlace pre st hp hr := (inv_run (h.mono hp) hr).places
  bounded pre st hp hr := (inv_run (h.mono hp) hr).bounded
  retired pre a mid handle u v st hp hu hret hv hnone hr := by
    have hgone := not_mem_of_retires hret hv
    rw [List.append_cons] at hp
    have hrun : run (pre ++ [a]) = some v := Runs.run_concat_eq_some.mpr ⟨u, hu, hv⟩
    have hinv := inv_run (h.mono ((List.prefix_append _ mid).trans hp)) hrun
    have hmeets := (h.mono hp).of_append hrun
    refine objectAt_of_not_mem (Runs.inv_of_guarded (fun s => Inv s ∧ handle ∉ s.table.map)
      ⟨hinv, hgone⟩ ?_ (hmeets.and hnone) hr).2
    rintro s b s' ⟨hi, hnot⟩ ⟨hm, hb⟩ hs
    exact ⟨inv_step hi hm hs, not_mem_step hi hnot hb hs⟩

/-- A guard that outlives its handle brings the handle back when it is dropped. -/
theorem not_linear_of_free {acts : List (Action O)} (hmeets : MeetsAll acts)
    (hr : run acts = some st) {i : Nat} {obj : Nat × O} (hi : st.guards[i]? = some (handle, obj)) :
    ¬ Linear (acts ++ [.free handle, .dropGuard i]) := by
  intro hlinear
  have hent := (inv_run hmeets hr).guards _ (List.mem_of_getElem? hi)
  have hmem : handle ∈ st.table.map :=
    Std.ExtTreeMap.mem_iff_isSome_getElem?.mpr (by rw [hent]; rfl)
  have hfree : st.table.free handle = .ok (st.table.intoInner handle) := if_pos hmem
  obtain ⟨v, hv, hguards⟩ : ∃ v, step st (.free handle) = some v ∧ v.guards = st.guards := by
    simp only [step, hfree]
    exact ⟨_, rfl, rfl⟩
  have hdrop : Runs.run step v [.dropGuard i] = some { v with
      table := v.table.put handle obj, guards := v.guards.eraseIdx i } := by
    simp only [Runs.run, List.foldlM_cons, List.foldlM_nil, step, hguards, hi]
    rfl
  have hnone := hlinear.retired acts (.free handle) [.dropGuard i] handle st v _ (List.prefix_refl _) hr
    ⟨rfl, _, hfree⟩ hv (Runs.guarded_cons.mpr ⟨id, fun u _ => Runs.guarded_nil⟩) hdrop
  rw [HandleTable.objectAt_put, if_pos rfl] at hnone
  cases hnone

/-- Handles are linear in every run in which nobody frees a handle while a guard has its
object. Behind any other step a guard can be dropped such that they are not. -/
theorem handles_linear_iff {acts : List (Action O)} (h : MeetsAll acts) :
    Linear acts ∧ ∀ st, run acts = some st →
      ∀ a, Meets st a ↔ ∀ i, Linear (acts ++ [a, .dropGuard i]) := by
  refine ⟨linear_of_meets h, fun st hr a => ⟨fun hm i => linear_of_meets ?_, fun hall => ?_⟩⟩
  · rw [List.append_cons]
    refine Runs.guarded_concat.mpr ⟨Runs.guarded_concat.mpr ⟨h, fun u hu => ?_⟩, fun u _ => trivial⟩
    exact Option.some.inj (hr.symm.trans hu) ▸ hm
  · cases a with
    | free handle =>
      rintro ⟨h', obj⟩ hg rfl
      obtain ⟨i, hi⟩ := List.mem_iff_getElem?.mp hg
      exact not_linear_of_free h hr hi (hall i)
    | _ => trivial

/-! ## A guard that is dropped after its handle was freed -/

/-- An object is allocated, and a guard takes it. -/
def sampleCalls : List (Action Nat) := [.allocate 7, .get (fun _ => true) 1]

theorem allocate_first (obj : Nat × Nat) : HandleTable.empty.allocate obj =
    (.ok 1, ⟨3, (∅ : BTreeMap Int32 (Option (Nat × Nat))).insert 1 (some obj)⟩) := by
  unfold HandleTable.allocate
  rw [HandleTable.probe]
  rfl

theorem run_sampleCalls : ∃ st, run sampleCalls = some st ∧ st.guards[0]? = some (1, 0, 7) := by
  have hfirst : step init (.allocate 7) = some
      ⟨⟨3, (∅ : BTreeMap Int32 (Option (Nat × Nat))).insert 1 (some (0, 7))⟩, [], [], [], 1⟩ := by
    simp only [step, init, allocate_first]
  simp only [run, Runs.run, sampleCalls, List.foldlM_cons, hfirst]
  exact ⟨_, rfl, rfl⟩

theorem meetsAll_sampleCalls : MeetsAll sampleCalls := by
  refine Runs.guarded_cons.mpr ⟨trivial, fun u _ => ?_⟩
  exact Runs.guarded_cons.mpr ⟨trivial, fun u _ => Runs.guarded_nil⟩

theorem handles_not_linear : ¬ Linear (sampleCalls ++ [.free 1, .dropGuard 0]) := by
  obtain ⟨st, hr, hguard⟩ := run_sampleCalls
  exact not_linear_of_free meetsAll_sampleCalls hr hguard

theorem handles_linear_sample : Linear sampleCalls ∧ ∀ st, run sampleCalls = some st →
    ∀ a, Meets st a ↔ ∀ i, Linear (sampleCalls ++ [a, .dropGuard i]) :=
  handles_linear_iff meetsAll_sampleCalls

end State

end HandleCalls
