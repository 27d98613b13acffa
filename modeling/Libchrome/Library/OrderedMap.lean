import Mathlib.Order.Lattice
import Mathlib.Data.List.Forall2
import Mathlib.Algebra.BigOperators.Group.List.Basic
import Mathlib.Tactic.Abel

/-!
# Ordered maps

A map with ordered keys, as the list of its entries in the order of the keys. A value is changed in
place, and a key that is absent enters at its place.
-/

namespace Libchrome.Library

structure OrderedMap (K V : Type) [LinearOrder K] where
  entries : List (K × V)
  sorted : entries.Pairwise fun former latter => former.1 < latter.1

namespace OrderedMap

variable {K V : Type} [LinearOrder K]

/-- The value that the entries give to a key. -/
def valueIn (key : K) : List (K × V) → Option V
  | [] => none
  | entry :: rest => if entry.1 = key then some entry.2 else valueIn key rest

/-- Give a key the value made from its old one. -/
def updateIn (key : K) (change : Option V → V) : List (K × V) → List (K × V)
  | [] => [(key, change none)]
  | entry :: rest =>
    if key < entry.1 then (key, change none) :: entry :: rest
    else if entry.1 = key then (key, change (some entry.2)) :: rest
    else entry :: updateIn key change rest

variable {key : K} {entries : List (K × V)}

theorem valueIn_eq_none (absent : ∀ entry ∈ entries, entry.1 ≠ key) : valueIn key entries = none := by
  induction entries with
  | nil => rfl
  | cons entry rest ih =>
    rw [valueIn, if_neg (absent entry List.mem_cons_self)]
    exact ih fun other member => absent other (List.mem_cons_of_mem entry member)

/-- A key below the first one is absent. -/
theorem valueIn_of_lt {entry : K × V} {rest : List (K × V)} (below : key < entry.1)
    (first : ∀ other ∈ rest, entry.1 < other.1) : valueIn key (entry :: rest) = none := by
  apply valueIn_eq_none
  intro other member
  rcases List.mem_cons.mp member with rfl | member
  · exact below.ne'
  · exact (below.trans (first other member)).ne'

theorem mem_updateIn {change : Option V → V} {other : K × V} (member : other ∈ updateIn key change entries) :
    (∃ old, other = (key, change old)) ∨ other ∈ entries := by
  induction entries with
  | nil => exact .inl ⟨none, List.mem_singleton.mp member⟩
  | cons entry rest ih =>
    rw [updateIn] at member
    split at member
    · rcases List.mem_cons.mp member with rfl | member
      · exact .inl ⟨none, rfl⟩
      · exact .inr member
    · split at member
      · rcases List.mem_cons.mp member with rfl | member
        · exact .inl ⟨some entry.2, rfl⟩
        · exact .inr (List.mem_cons_of_mem _ member)
      · rcases List.mem_cons.mp member with rfl | member
        · exact .inr List.mem_cons_self
        · exact (ih member).imp_right (List.mem_cons_of_mem _)

theorem updateIn_sorted (key : K) (change : Option V → V)
    (sorted : entries.Pairwise fun former latter => former.1 < latter.1) :
    (updateIn key change entries).Pairwise fun former latter => former.1 < latter.1 := by
  induction entries with
  | nil => exact List.pairwise_singleton _ _
  | cons entry rest ih =>
    obtain ⟨first, later⟩ := List.pairwise_cons.mp sorted
    rw [updateIn]
    split
    next below =>
      refine List.pairwise_cons.mpr ⟨fun other member => ?_, sorted⟩
      rcases List.mem_cons.mp member with rfl | member
      · exact below
      · exact below.trans (first other member)
    next notBelow =>
      split
      next same =>
        subst same
        exact List.pairwise_cons.mpr ⟨first, later⟩
      next different =>
        refine List.pairwise_cons.mpr ⟨fun other member => ?_, ih later⟩
        rcases mem_updateIn member with ⟨old, rfl⟩ | member
        · exact lt_of_le_of_ne (not_lt.mp notBelow) different
        · exact first other member

theorem valueIn_updateIn (key other : K) (change : Option V → V)
    (sorted : entries.Pairwise fun former latter => former.1 < latter.1) :
    valueIn other (updateIn key change entries) =
      if other = key then some (change (valueIn key entries)) else valueIn other entries := by
  induction entries with
  | nil =>
    simp only [updateIn, valueIn, eq_comm (a := other)]
  | cons entry rest ih =>
    obtain ⟨first, later⟩ := List.pairwise_cons.mp sorted
    rw [updateIn]
    split
    next below =>
      rw [valueIn_of_lt below first, valueIn]
      simp only [eq_comm (a := key)]
    next notBelow =>
      split
      next same =>
        subst same
        simp only [valueIn, if_pos, eq_comm (a := other)]
        split <;> rfl
      next different =>
        simp only [valueIn, ih later, if_neg different]
        by_cases here : entry.1 = other
        · subst here
          rw [if_pos rfl, if_neg different, if_pos rfl]
        · rw [if_neg here, if_neg here]

/-- The entries without the one of a key. -/
def eraseIn (key : K) (entries : List (K × V)) : List (K × V) :=
  entries.eraseP fun entry => entry.1 = key

theorem mem_of_mem_eraseIn {other : K × V} (member : other ∈ eraseIn key entries) : other ∈ entries :=
  List.mem_of_mem_eraseP member

theorem eraseIn_sorted (key : K) (sorted : entries.Pairwise fun former latter => former.1 < latter.1) :
    (eraseIn key entries).Pairwise fun former latter => former.1 < latter.1 :=
  sorted.sublist List.eraseP_sublist

theorem valueIn_eraseIn (key other : K) (sorted : entries.Pairwise fun former latter => former.1 < latter.1) :
    valueIn other (eraseIn key entries) = if other = key then none else valueIn other entries := by
  induction entries with
  | nil => simp only [eraseIn, List.eraseP_nil, valueIn, ite_self]
  | cons entry rest ih =>
    obtain ⟨first, later⟩ := List.pairwise_cons.mp sorted
    rw [eraseIn] at ih ⊢
    rw [List.eraseP_cons]
    by_cases here : entry.1 = key
    · subst here
      rw [decide_eq_true rfl, cond_true, valueIn]
      by_cases same : other = entry.1
      · rw [if_pos same, same]
        exact valueIn_eq_none fun another member => (first another member).ne'
      · rw [if_neg same, if_neg (Ne.symm same)]
    · rw [decide_eq_false here, cond_false, valueIn, valueIn, ih later]
      by_cases same : entry.1 = other
      · rw [if_pos same, if_neg (same ▸ here), if_pos same]
      · rw [if_neg same, if_neg same]

/-- Sorted entries whose values are related key by key are related one by one. -/
theorem forall₂_of_valueIn {W : Type} (related : V → W → Prop) {others : List (K × W)}
    (sorted : entries.Pairwise fun former latter => former.1 < latter.1)
    (otherSorted : others.Pairwise fun former latter => former.1 < latter.1)
    (each : ∀ key, Option.Rel related (valueIn key entries) (valueIn key others)) :
    List.Forall₂ (fun entry other => entry.1 = other.1 ∧ related entry.2 other.2) entries others := by
  induction entries generalizing others with
  | nil =>
    cases others with
    | nil => exact .nil
    | cons other others =>
      have found := each other.1
      rw [valueIn, valueIn, if_pos rfl] at found
      cases found
  | cons entry rest ih =>
    obtain ⟨first, later⟩ := List.pairwise_cons.mp sorted
    cases others with
    | nil =>
      have found := each entry.1
      rw [valueIn, valueIn, if_pos rfl] at found
      cases found
    | cons other others =>
      obtain ⟨otherFirst, otherLater⟩ := List.pairwise_cons.mp otherSorted
      have keys : entry.1 = other.1 := by
        rcases lt_trichotomy entry.1 other.1 with below | equal | above
        · have found := each entry.1
          rw [valueIn_of_lt below otherFirst, valueIn, if_pos rfl] at found
          cases found
        · exact equal
        · have found := each other.1
          rw [valueIn_of_lt above first, valueIn, if_pos rfl] at found
          cases found
      have values : related entry.2 other.2 := by
        have found := each entry.1
        rw [valueIn, valueIn, if_pos rfl, if_pos keys.symm] at found
        cases found with
        | some holds => exact holds
      apply List.Forall₂.cons ⟨keys, values⟩
      apply ih later otherLater
      intro key
      have found := each key
      rw [valueIn, valueIn, ← keys] at found
      by_cases here : entry.1 = key
      · subst here
        rw [valueIn_eq_none fun another member => (first another member).ne',
          valueIn_eq_none fun another member => (keys ▸ otherFirst another member).ne']
        exact .none
      · rwa [if_neg here, if_neg here] at found

/-- Entries that are related one by one have values that are related key by key. -/
theorem valueIn_of_forall₂ {W : Type} (related : V → W → Prop) {others : List (K × W)}
    (each : List.Forall₂ (fun entry other => entry.1 = other.1 ∧ related entry.2 other.2) entries others) (key : K) :
    Option.Rel related (valueIn key entries) (valueIn key others) := by
  induction each with
  | nil => exact .none
  | cons both _ ih =>
    rw [valueIn, valueIn, ← both.1]
    split
    next => exact .some both.2
    next => exact ih

/-- Sorted entries are known by the values that they give to the keys. -/
theorem eq_of_valueIn {others : List (K × V)} (sorted : entries.Pairwise fun former latter => former.1 < latter.1)
    (otherSorted : others.Pairwise fun former latter => former.1 < latter.1)
    (same : ∀ key, valueIn key entries = valueIn key others) : entries = others := by
  have each : List.Forall₂ (fun entry other => entry.1 = other.1 ∧ entry.2 = other.2) entries others := by
    apply forall₂_of_valueIn Eq sorted otherSorted
    intro key
    rw [same key]
    cases valueIn key others with
    | none => exact .none
    | some value => exact .some rfl
  have equal : List.Forall₂ Eq entries others := each.imp fun _ _ both => Prod.ext both.1 both.2
  rwa [List.forall₂_eq_eq_eq] at equal

/-- A sum over the entries after an update: what the key had is taken off, what it has now is added. -/
theorem sum_updateIn {A : Type*} [AddCommGroup A] (weight : K → V → A) (key : K) (change : Option V → V)
    (sorted : entries.Pairwise fun former latter => former.1 < latter.1) :
    ((updateIn key change entries).map fun entry => weight entry.1 entry.2).sum =
      (entries.map fun entry => weight entry.1 entry.2).sum +
        (weight key (change (valueIn key entries)) - ((valueIn key entries).map (weight key)).getD 0) := by
  induction entries with
  | nil => simp [updateIn, valueIn]
  | cons entry rest ih =>
    obtain ⟨first, later⟩ := List.pairwise_cons.mp sorted
    rw [updateIn]
    split
    next below =>
      simp only [valueIn_of_lt below first, List.map_cons, List.sum_cons, Option.map_none, Option.getD_none]
      abel
    next =>
      split
      next same =>
        subst same
        simp only [valueIn, if_pos, List.map_cons, List.sum_cons, Option.map_some, Option.getD_some]
        abel
      next different =>
        simp only [valueIn, if_neg different, List.map_cons, List.sum_cons, ih later]
        abel

def empty : OrderedMap K V where
  entries := []
  sorted := .nil

/-- `find`. -/
def find (map : OrderedMap K V) (key : K) : Option V :=
  valueIn key map.entries

/-- The same keys with other values. -/
def mapValues {W : Type} (map : OrderedMap K V) (f : V → W) : OrderedMap K W where
  entries := map.entries.map fun entry => (entry.1, f entry.2)
  sorted := List.pairwise_map.mpr map.sorted

@[simp] theorem find_mapValues {W : Type} (map : OrderedMap K V) (f : V → W) (key : K) :
    (map.mapValues f).find key = (map.find key).map f := by
  simp only [find, mapValues]
  induction map.entries with
  | nil => rfl
  | cons entry rest ih =>
    simp only [List.map_cons, valueIn, ih]
    split <;> rfl

def update (map : OrderedMap K V) (key : K) (change : Option V → V) : OrderedMap K V where
  entries := updateIn key change map.entries
  sorted := updateIn_sorted key change map.sorted

/-- `erase`. -/
def erase (map : OrderedMap K V) (key : K) : OrderedMap K V where
  entries := eraseIn key map.entries
  sorted := eraseIn_sorted key map.sorted

theorem mem_update {map : OrderedMap K V} {change : Option V → V} {entry : K × V}
    (member : entry ∈ (map.update key change).entries) : (∃ old, entry = (key, change old)) ∨ entry ∈ map.entries :=
  mem_updateIn member

theorem find_eq_some_iff (map : OrderedMap K V) {value : V} :
    map.find key = some value ↔ (key, value) ∈ map.entries := by
  obtain ⟨entries, sorted⟩ := map
  simp only [find]
  induction entries with
  | nil => exact ⟨fun found => absurd found (Option.some_ne_none value).symm, fun member => absurd member List.not_mem_nil⟩
  | cons entry rest ih =>
    obtain ⟨first, later⟩ := List.pairwise_cons.mp sorted
    rw [valueIn, List.mem_cons]
    by_cases here : entry.1 = key
    · subst here
      have absent : (entry.1, value) ∉ rest := fun member => lt_irrefl entry.1 (first (entry.1, value) member)
      rw [if_pos rfl, Option.some.injEq]
      constructor
      · rintro rfl
        exact .inl rfl
      · intro member
        exact (Prod.ext_iff.mp (member.resolve_right absent)).2.symm
    · have different : (key, value) ≠ entry := fun same => here (by rw [← same])
      rw [if_neg here, ih later]
      exact (or_iff_right different).symm

@[simp] theorem find_update (map : OrderedMap K V) (key other : K) (change : Option V → V) :
    (map.update key change).find other = if other = key then some (change (map.find key)) else map.find other :=
  valueIn_updateIn key other change map.sorted

theorem sum_update {A : Type*} [AddCommGroup A] (map : OrderedMap K V) (weight : K → V → A) (key : K)
    (change : Option V → V) :
    ((map.update key change).entries.map fun entry => weight entry.1 entry.2).sum =
      (map.entries.map fun entry => weight entry.1 entry.2).sum +
        (weight key (change (map.find key)) - ((map.find key).map (weight key)).getD 0) :=
  sum_updateIn weight key change map.sorted

/-- What the entries hold under one key is what is found under it. -/
theorem sum_single {A : Type} [AddCommMonoid A] (map : OrderedMap K A) (key : K) :
    (map.entries.map fun entry => if entry.1 = key then entry.2 else 0).sum = (map.find key).getD 0 := by
  obtain ⟨entries, sorted⟩ := map
  simp only [find]
  induction entries with
  | nil => rfl
  | cons entry rest ih =>
    obtain ⟨first, later⟩ := List.pairwise_cons.mp sorted
    rw [List.map_cons, List.sum_cons, ih later, valueIn]
    by_cases here : entry.1 = key
    · subst here
      have absent : valueIn entry.1 rest = none := valueIn_eq_none fun other member => (first other member).ne'
      rw [if_pos rfl, if_pos rfl, absent, Option.getD_none, add_zero, Option.getD_some]
    · rw [if_neg here, if_neg here, zero_add]

end OrderedMap

end Libchrome.Library
