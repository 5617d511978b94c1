import Std.Data.ExtTreeMap
import Mathlib.Algebra.BigOperators.Group.List.Basic
import Mathlib.Data.List.Induction
import Mathlib.Data.List.Perm.Basic
import Mathlib.Data.List.Nodup
import Mathlib.Tactic.Common

/-!
# Ordered maps built entry by entry

The map that a loop leaves behind when it inserts one entry for each element of a
list. With distinct keys it does not depend on the order of the list.
-/

abbrev BTreeMap (κ α : Type) [Ord κ] := Std.ExtTreeMap κ α compare

namespace BTreeMap

set_option linter.unusedSectionVars false

variable {P κ α β : Type} [Ord κ] [Std.TransOrd κ] [Std.LawfulEqOrd κ]
  {key : P → κ} {val : P → α} {l l' : List P} {k : κ} {x : P} {a : α}

/-- `{ key x ↦ val x | x ∈ l }`, a later entry replacing an earlier one. -/
def tabulate (key : P → κ) (val : P → α) (l : List P) : BTreeMap κ α :=
  l.foldl (fun m x => m.insert (key x) (val x)) ∅

@[simp] theorem tabulate_nil : tabulate key val [] = ∅ := rfl

@[simp] theorem tabulate_concat (l : List P) (x : P) :
    tabulate key val (l ++ [x]) = (tabulate key val l).insert (key x) (val x) := by
  simp [tabulate]

theorem tabulate_congr {val' : P → α} (h : ∀ x ∈ l, val x = val' x) :
    tabulate key val l = tabulate key val' l := by
  induction l using List.reverseRecOn with
  | nil => rfl
  | append_singleton l x ih =>
    rw [tabulate_concat, tabulate_concat, ih fun y hy => h y (List.mem_append_left _ hy),
      h x (by simp)]

theorem mem_tabulate : k ∈ tabulate key val l ↔ ∃ x ∈ l, key x = k := by
  induction l using List.reverseRecOn with
  | nil => simp
  | append_singleton l x ih =>
    rw [tabulate_concat, Std.ExtTreeMap.mem_insert, ih, Std.LawfulEqOrd.compare_eq_iff_eq]
    simp only [List.mem_append, List.mem_singleton]
    constructor
    · rintro (rfl | ⟨y, hy, rfl⟩)
      · exact ⟨x, Or.inr rfl, rfl⟩
      · exact ⟨y, Or.inl hy, rfl⟩
    · rintro ⟨y, hy | rfl, rfl⟩
      · exact Or.inr ⟨y, hy, rfl⟩
      · exact Or.inl rfl

/-- The list has at most one element for each key. -/
def Injective (key : P → κ) (l : List P) : Prop := ∀ x ∈ l, ∀ y ∈ l, key x = key y → x = y

theorem getElem?_tabulate (hinj : Injective key l) :
    (tabulate key val l)[k]? = some a ↔ ∃ x ∈ l, key x = k ∧ val x = a := by
  induction l using List.reverseRecOn with
  | nil => simp
  | append_singleton l x ih =>
    have hinj' : Injective key l := fun y hy z hz =>
      hinj y (List.mem_append_left _ hy) z (List.mem_append_left _ hz)
    rw [tabulate_concat, Std.ExtTreeMap.getElem?_insert]
    split
    · next hk =>
      obtain rfl := Std.LawfulEqOrd.compare_eq_iff_eq.mp hk
      constructor
      · intro h
        exact ⟨x, by simp, rfl, Option.some.inj h⟩
      · rintro ⟨y, hy, hky, rfl⟩
        rw [hinj y hy x (by simp) hky]
    · next hk =>
      have hne : key x ≠ k := fun h => hk (Std.LawfulEqOrd.compare_eq_iff_eq.mpr h)
      rw [ih hinj']
      constructor
      · rintro ⟨y, hy, h⟩
        exact ⟨y, List.mem_append_left _ hy, h⟩
      · rintro ⟨y, hy, hky, hv⟩
        rcases List.mem_append.mp hy with hy | hy
        · exact ⟨y, hy, hky, hv⟩
        · obtain rfl := List.mem_singleton.mp hy
          exact absurd hky hne

theorem getElem?_tabulate_of_mem (hinj : Injective key l) (hx : x ∈ l) :
    (tabulate key val l)[key x]? = some (val x) :=
  (getElem?_tabulate hinj).mpr ⟨x, hx, rfl, rfl⟩

theorem tabulate_toList (m : BTreeMap κ α) : tabulate Prod.fst Prod.snd m.toList = m := by
  have hinj : Injective Prod.fst m.toList := by
    rintro ⟨k, a⟩ hx ⟨k', b⟩ hy rfl
    rw [Std.ExtTreeMap.mem_toList_iff_getElem?_eq_some] at hx hy
    rw [Option.some.inj (hx.symm.trans hy)]
  refine Std.ExtTreeMap.ext_getElem? fun k => Option.ext fun a => ?_
  rw [getElem?_tabulate hinj, ← Std.ExtTreeMap.mem_toList_iff_getElem?_eq_some]
  constructor
  · rintro ⟨⟨k', a'⟩, hx, rfl, rfl⟩
    exact hx
  · exact fun h => ⟨(k, a), h, rfl, rfl⟩

theorem tabulate_eq_of_mem_iff (hinj : Injective key l) (h : ∀ x, x ∈ l ↔ x ∈ l') :
    tabulate key val l = tabulate key val l' := by
  have hinj' : Injective key l' := fun x hx y hy =>
    hinj x ((h x).mpr hx) y ((h y).mpr hy)
  refine Std.ExtTreeMap.ext_getElem? fun k => Option.ext fun a => ?_
  rw [getElem?_tabulate hinj, getElem?_tabulate hinj']
  simp only [h]

theorem insert_tabulate (hinj : Injective key (x :: l)) :
    (tabulate key val l).insert (key x) (val x) = tabulate key val (x :: l) := by
  rw [← tabulate_concat]
  refine tabulate_eq_of_mem_iff ?_ fun y => by simp [or_comm]
  exact fun y hy z hz => hinj y (by simpa [or_comm] using hy) z (by simpa [or_comm] using hz)

theorem map_tabulate (f : κ → α → β) (hinj : Injective key l) :
    (tabulate key val l).map f = tabulate key (fun x => f (key x) (val x)) l := by
  refine Std.ExtTreeMap.ext_getElem? fun k => Option.ext fun b => ?_
  rw [Std.ExtTreeMap.getElem?_map, Option.map_eq_some_iff, getElem?_tabulate hinj]
  constructor
  · rintro ⟨a, ha, rfl⟩
    obtain ⟨x, hx, rfl, rfl⟩ := (getElem?_tabulate hinj).mp ha
    exact ⟨x, hx, rfl, rfl⟩
  · rintro ⟨x, hx, rfl, rfl⟩
    exact ⟨val x, getElem?_tabulate_of_mem hinj hx, rfl⟩

theorem size_tabulate_le (l : List P) : (tabulate key val l).size ≤ l.length := by
  induction l using List.reverseRecOn with
  | nil => simp
  | append_singleton l x ih =>
    rw [tabulate_concat, List.length_append, List.length_singleton]
    exact Nat.le_trans Std.ExtTreeMap.size_insert_le (Nat.add_le_add_right ih 1)

theorem size_tabulate_eq_iff :
    (tabulate key val l).size = l.length ↔ (l.map key).Nodup := by
  induction l using List.reverseRecOn with
  | nil => simp
  | append_singleton l x ih =>
    have hmem : (tabulate key val l).contains (key x) = true ↔ key x ∈ l.map key := by
      rw [← Std.ExtTreeMap.mem_iff_contains, mem_tabulate, List.mem_map]
    have hle : (tabulate key val l).size ≤ l.length := size_tabulate_le l
    rw [tabulate_concat, Std.ExtTreeMap.size_insert, List.map_append, List.map_singleton,
      List.nodup_append, List.length_append, List.length_singleton]
    split
    · next hc =>
      constructor
      · intro h
        omega
      · rintro ⟨-, -, hdis⟩
        exact absurd rfl (hdis _ (hmem.mp hc) _ (List.mem_singleton_self _))
    · next hc =>
      constructor
      · intro h
        refine ⟨ih.mp (by omega), List.nodup_singleton _, ?_⟩
        rintro a ha b hb rfl
        exact hc (hmem.mpr (List.mem_singleton.mp hb ▸ ha))
      · rintro ⟨hn, -⟩
        rw [ih.mpr hn]

theorem injective_of_nodup (h : (l.map key).Nodup) : Injective key l :=
  fun _ hx _ hy => List.inj_on_of_nodup_map h hx hy

theorem Injective.nodup_map (hinj : Injective key l) (hl : l.Nodup) : (l.map key).Nodup :=
  hl.map_on hinj

theorem toList_tabulate_perm (hinj : Injective key l) (hl : l.Nodup) :
    (tabulate key val l).toList.Perm (l.map fun x => (key x, val x)) := by
  have hkeys : ((tabulate key val l).toList.map Prod.fst).Nodup := by
    rw [Std.ExtTreeMap.map_fst_toList_eq_keys]
    exact Std.ExtTreeMap.nodup_keys
  have hentries : (l.map fun x => (key x, val x)).Nodup :=
    hl.map_on fun x hx y hy h => hinj x hx y hy (Prod.mk.inj h).1
  rw [List.perm_ext_iff_of_nodup (List.Nodup.of_map _ hkeys) hentries]
  rintro ⟨k, a⟩
  rw [Std.ExtTreeMap.mem_toList_iff_getElem?_eq_some, getElem?_tabulate hinj, List.mem_map]
  simp only [Prod.mk.injEq]

theorem exists_map_of_perm {γ : Type} {f : P → γ} {m m' : List γ} (h : m.Perm m') :
    ∀ {l : List P}, m = l.map f → ∃ l' : List P, l.Perm l' ∧ m' = l'.map f := by
  induction h with
  | nil =>
    intro l hl
    exact ⟨[], by rw [List.map_eq_nil_iff.mp hl.symm], rfl⟩
  | cons a _ ih =>
    intro l hl
    obtain ⟨x, l, rfl, rfl, htail⟩ := List.map_eq_cons_iff.mp hl.symm
    obtain ⟨l', hperm, rfl⟩ := ih htail.symm
    exact ⟨x :: l', hperm.cons x, rfl⟩
  | swap a b m =>
    intro l hl
    obtain ⟨y, l, rfl, rfl, htail⟩ := List.map_eq_cons_iff.mp hl.symm
    obtain ⟨x, l, rfl, rfl, rfl⟩ := List.map_eq_cons_iff.mp htail
    exact ⟨x :: y :: l, .swap x y l, rfl⟩
  | trans _ _ ih₁ ih₂ =>
    intro l hl
    obtain ⟨l₁, hperm₁, hl₁⟩ := ih₁ hl
    obtain ⟨l₂, hperm₂, hl₂⟩ := ih₂ hl₁
    exact ⟨l₂, hperm₁.trans hperm₂, hl₂⟩

theorem exists_toList_tabulate (hinj : Injective key l) (hl : l.Nodup) :
    ∃ l' : List P, l.Perm l' ∧ (tabulate key val l).toList = l'.map fun x => (key x, val x) :=
  exists_map_of_perm (toList_tabulate_perm hinj hl).symm rfl

theorem sum_toList_tabulate {A : Type} [AddCommMonoid A] (hinj : Injective key l) (hl : l.Nodup)
    (f : κ × α → A) :
    ((tabulate key val l).toList.map f).sum = (l.map fun x => f (key x, val x)).sum := by
  rw [((toList_tabulate_perm hinj hl).map f).sum_eq, List.map_map]
  rfl

/-! ## One entry and the others -/

theorem mem_toList_erase {m : BTreeMap κ α} {e : κ × α} :
    e ∈ (m.erase k).toList ↔ e.1 ≠ k ∧ e ∈ m.toList := by
  obtain ⟨x, a⟩ := e
  rw [Std.ExtTreeMap.mem_toList_iff_getElem?_eq_some, Std.ExtTreeMap.mem_toList_iff_getElem?_eq_some,
    Std.ExtTreeMap.getElem?_erase]
  split
  · next h =>
    obtain rfl := Std.compare_eq_iff_eq.mp h
    simp
  · next h =>
    have hne : x ≠ k := fun he => h (Std.compare_eq_iff_eq.mpr he.symm)
    simp [hne]

theorem nodup_toList (m : BTreeMap κ α) : m.toList.Nodup := by
  refine (Std.ExtTreeMap.distinct_keys_toList (t := m)).imp ?_
  rintro x y h rfl
  exact h Std.ReflCmp.compare_self

theorem length_le_size {m : BTreeMap κ α} {l : List κ} (hl : l.Nodup) (h : ∀ k ∈ l, k ∈ m) :
    l.length ≤ m.size := by
  have hsub : l ⊆ m.keys := fun k hk => Std.ExtTreeMap.mem_keys.mpr (h k hk)
  rw [← Std.ExtTreeMap.length_keys]
  exact (List.subperm_of_subset hl hsub).length_le

theorem toList_perm_of_getElem? {m : BTreeMap κ α} (h : m[k]? = some a) :
    m.toList.Perm ((k, a) :: (m.erase k).toList) := by
  have hnot : (k, a) ∉ (m.erase k).toList := fun hmem => (mem_toList_erase.mp hmem).1 rfl
  refine (List.perm_ext_iff_of_nodup (nodup_toList m)
    (List.nodup_cons.mpr ⟨hnot, nodup_toList _⟩)).mpr ?_
  rintro ⟨x, b⟩
  rw [List.mem_cons, mem_toList_erase]
  by_cases hx : x = k
  · subst hx
    rw [Std.ExtTreeMap.mem_toList_iff_getElem?_eq_some, h]
    simp [eq_comm]
  · simp [hx]

theorem erase_insert (m : BTreeMap κ α) (k : κ) (a : α) : (m.insert k a).erase k = m.erase k := by
  refine Std.ExtTreeMap.ext_getElem? fun x => ?_
  rw [Std.ExtTreeMap.getElem?_erase, Std.ExtTreeMap.getElem?_erase, Std.ExtTreeMap.getElem?_insert]
  split
  · rfl
  · rfl

theorem toList_insert_perm (m : BTreeMap κ α) (k : κ) (a : α) :
    (m.insert k a).toList.Perm ((k, a) :: (m.erase k).toList) := by
  have h : (m.insert k a)[k]? = some a := Std.ExtTreeMap.getElem?_insert_self
  have hperm := toList_perm_of_getElem? h
  rwa [erase_insert] at hperm

theorem erase_of_not_mem {m : BTreeMap κ α} (h : k ∉ m) : m.erase k = m := by
  refine Std.ExtTreeMap.ext_getElem? fun x => ?_
  rw [Std.ExtTreeMap.getElem?_erase]
  split
  · next heq =>
    obtain rfl := Std.compare_eq_iff_eq.mp heq
    exact (Std.ExtTreeMap.getElem?_eq_none h).symm
  · rfl

end BTreeMap
