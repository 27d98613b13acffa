import Mathlib.Data.Finmap

/-! Items with unique keys, and the finite maps that they list. -/

namespace Libchrome.Library.Keyed

/-- Where keys are unique, a search by key finds just the items. -/
theorem find_iff {α κ : Type} [DecidableEq κ] {f : α → κ} {items : List α} (unique : (items.map f).Nodup) {key : κ}
    {item : α} : (items.find? fun other => f other = key) = some item ↔ item ∈ items ∧ f item = key := by
  induction items with
  | nil => simp only [List.find?_nil, List.not_mem_nil, false_and, reduceCtorEq]
  | cons first rest inductive_hypothesis =>
    rw [List.map_cons, List.nodup_cons] at unique
    rw [List.find?_cons]
    by_cases here : f first = key
    · simp only [here, decide_true, Option.some.injEq, List.mem_cons]
      constructor
      · intro same
        subst same
        exact ⟨Or.inl rfl, here⟩
      · intro found
        rcases found with ⟨rfl | later, same⟩
        · rfl
        · have again : f item ∈ rest.map f := List.mem_map_of_mem later
          rw [same, ← here] at again
          exact absurd again unique.1
    · simp only [here, decide_false, inductive_hypothesis unique.2, List.mem_cons]
      constructor
      · intro found
        exact ⟨Or.inr found.1, found.2⟩
      · intro found
        rcases found with ⟨rfl | later, same⟩
        · exact absurd same here
        · exact ⟨later, same⟩

theorem exists_between {α : Type} {items : List α} {i : Nat} {item : α} (there : items[i]? = some item) :
    ∃ front back, items = front ++ item :: back ∧ front.length = i := by
  rcases List.getElem?_eq_some_iff.mp there with ⟨inside, rfl⟩
  refine ⟨items.take i, items.drop (i + 1), ?_, ?_⟩
  · rw [← List.drop_eq_getElem_cons inside, List.take_append_drop]
  · rw [List.length_take]
    omega

section Related

variable {α β : Type} {related : α → β → Prop} {items : List α} {others : List β}

section
variable (all : List.Forall₂ related items others)
include all

theorem getElem?_related {i : Nat} {other : β} (there : others[i]? = some other) :
    ∃ item, items[i]? = some item ∧ related item other := by
  induction all generalizing i with
  | nil => cases there
  | cons first rest inductive_hypothesis =>
    cases i with
    | zero =>
      cases there
      exact ⟨_, rfl, first⟩
    | succ i => exact inductive_hypothesis there

theorem set_related (i : Nat) {item : α} {other : β} (new : related item other) :
    List.Forall₂ related (items.set i item) (others.set i other) := by
  induction all generalizing i with
  | nil => exact .nil
  | cons first rest inductive_hypothesis =>
    cases i with
    | zero => exact .cons new rest
    | succ i => exact .cons first (inductive_hypothesis i)

theorem concat_related {item : α} {other : β} (new : related item other) :
    List.Forall₂ related (items ++ [item]) (others ++ [other]) := by
  induction all with
  | nil => exact .cons new .nil
  | cons first rest inductive_hypothesis => exact .cons first inductive_hypothesis

end

end Related

variable {K V : Type} [DecidableEq K]

section Lookup

variable (map : Finmap fun _ : K => V) (key other : K)

theorem lookup_insert (value : V) : (map.insert key value).lookup other = if other = key then some value else map.lookup other := by
  by_cases same : other = key
  · subst same
    simp only [Finmap.lookup_insert, if_pos]
  · simp only [Finmap.lookup_insert_of_ne _ same, if_neg same]

theorem lookup_erase : (map.erase key).lookup other = if other = key then none else map.lookup other := by
  by_cases same : other = key
  · subst same
    simp only [Finmap.lookup_erase, if_pos]
  · simp only [Finmap.lookup_erase_ne same, if_neg same]

variable {map key} in
theorem erase_of_not_mem (absent : key ∉ map) : map.erase key = map := by
  apply Finmap.ext_lookup
  intro other
  rw [lookup_erase]
  split
  next same => rw [same, Finmap.lookup_eq_none.mpr absent]
  next => rfl

end Lookup

/-- A list of pairs lists a finite map, each key once. -/
structure Lists (pairs : List (K × V)) (map : Finmap fun _ : K => V) : Prop where
  unique : (pairs.map Prod.fst).Nodup
  same : ∀ key value, (key, value) ∈ pairs ↔ map.lookup key = some value

namespace Lists

variable {pairs others : List (K × V)} {map : Finmap fun _ : K => V} {key : K} {value : V}

theorem empty : Lists ([] : List (K × V)) ∅ where
  unique := List.nodup_nil
  same key value := by
    rw [Finmap.lookup_empty]
    constructor
    · intro member
      cases member
    · intro found
      cases found

theorem perm (lists : Lists pairs map) (perm : others.Perm pairs) : Lists others map where
  unique := (perm.map _).nodup_iff.mpr lists.unique
  same key value := by rw [perm.mem_iff, lists.same]

theorem lookup_eq_none_iff (lists : Lists pairs map) : map.lookup key = none ↔ ∀ pair ∈ pairs, pair.1 ≠ key := by
  constructor
  · intro none_ pair member same
    have found := (lists.same pair.1 pair.2).mp member
    rw [same, none_] at found
    cases found
  · intro absent
    cases found : map.lookup key with
    | none => rfl
    | some value => exact absurd rfl (absent (key, value) ((lists.same key value).mpr found))

theorem cons (lists : Lists pairs map) (absent : map.lookup key = none) (value : V) :
    Lists ((key, value) :: pairs) (map.insert key value) where
  unique := by
    rw [List.map_cons, List.nodup_cons]
    refine ⟨?_, lists.unique⟩
    intro taken
    rcases List.mem_map.mp taken with ⟨pair, member, same⟩
    exact lists.lookup_eq_none_iff.mp absent pair member same
  same other otherValue := by
    rw [lookup_insert, List.mem_cons, Prod.mk.injEq, lists.same]
    by_cases same : other = key
    · subst same
      simp only [true_and, absent, reduceCtorEq, or_false, if_true, Option.some.injEq]
      exact eq_comm
    · simp only [same, false_and, false_or, if_false]

theorem tail (lists : Lists ((key, value) :: pairs) map) : Lists pairs (map.erase key) where
  unique := by
    have unique := lists.unique
    rw [List.map_cons, List.nodup_cons] at unique
    exact unique.2
  same other otherValue := by
    have unique := lists.unique
    rw [List.map_cons, List.nodup_cons] at unique
    rw [lookup_erase]
    by_cases same : other = key
    · subst same
      rw [if_pos rfl]
      constructor
      · intro member
        exact absurd (List.mem_map_of_mem member) unique.1
      · intro found
        cases found
    · rw [if_neg same, ← lists.same, List.mem_cons, Prod.mk.injEq]
      simp only [same, false_and, false_or]

/-- The value of a pair is changed. -/
theorem replace (lists : Lists ((key, value) :: pairs) map) (new : V) :
    Lists ((key, new) :: pairs) (map.insert key new) := by
  have absent : (map.erase key).lookup key = none := by rw [lookup_erase, if_pos rfl]
  have same : (map.erase key).insert key new = map.insert key new := by
    apply Finmap.ext_lookup
    intro other
    rw [lookup_insert, lookup_insert, lookup_erase]
    split
    next => rfl
    next => rfl
  rw [← same]
  exact lists.tail.cons absent new

theorem card (lists : Lists pairs map) : map.keys.card = pairs.length := by
  have keys : map.keys = (pairs.map Prod.fst).toFinset := by
    ext key
    rw [Finmap.mem_keys, ← Finmap.lookup_isSome, List.mem_toFinset, Option.isSome_iff_exists, List.mem_map]
    constructor
    · intro found
      rcases found with ⟨value, found⟩
      exact ⟨(key, value), (lists.same key value).mpr found, rfl⟩
    · intro member
      rcases member with ⟨pair, member, rfl⟩
      exact ⟨pair.2, (lists.same pair.1 pair.2).mp member⟩
  rw [keys, List.toFinset_card_of_nodup lists.unique, List.length_map]

end Lists

end Libchrome.Library.Keyed
