import Libchrome.Base.Values.KeyPaths
import Libchrome.Library.Positions

/-! `DeepCopyWithoutEmptyChildren` (`values.cc`). -/

namespace Libchrome.Base.Values
open Library Bytes Json

variable {D : Type}

section Model

variable [Zero D] (doubles : Doubles D)

mutual

/-- `CopyWithoutEmptyChildren`; `none` is the null pointer. -/
def copyWithoutEmptyChildren : Value D → Option (Value D)
  | .list items => (copyListWithoutEmptyChildren none items).map .list
  | .dictionary entries => (copyDictionaryWithoutEmptyChildren none entries).map .dictionary
  | node => some (deepCopy doubles node)

/-- The loop of `CopyListWithoutEmptyChildren`; the copy is made with its first child. -/
def copyListWithoutEmptyChildren (copy : Option (List (Value D))) : List (Value D) → Option (List (Value D))
  | [] => copy
  | item :: rest =>
    match copyWithoutEmptyChildren item with
    | none => copyListWithoutEmptyChildren copy rest
    | some childCopy => copyListWithoutEmptyChildren (some (copy.getD [] ++ [childCopy])) rest

/-- The loop of `CopyDictionaryWithoutEmptyChildren`. -/
def copyDictionaryWithoutEmptyChildren (copy : Option (Entries D)) : Entries D → Option (Entries D)
  | [] => copy
  | (key, value) :: rest =>
    match copyWithoutEmptyChildren value with
    | none => copyDictionaryWithoutEmptyChildren copy rest
    | some childCopy =>
      copyDictionaryWithoutEmptyChildren (some (setWithoutPathExpansion (copy.getD []) key childCopy)) rest

end

def deepCopyWithoutEmptyChildren (entries : Entries D) : Entries D :=
  (copyDictionaryWithoutEmptyChildren doubles none entries).getD []

end Model

/-! ### Leaves -/

mutual

/-- There is a value in the tree that is no container. -/
def holdsLeaf : Value D → Bool
  | .list items => anyHoldsLeaf items
  | .dictionary entries => anyEntryHoldsLeaf entries
  | _ => true

def anyHoldsLeaf : List (Value D) → Bool
  | [] => false
  | item :: rest => holdsLeaf item || anyHoldsLeaf rest

def anyEntryHoldsLeaf : Entries D → Bool
  | [] => false
  | (_, value) :: rest => holdsLeaf value || anyEntryHoldsLeaf rest

end

mutual

/-- The tree of the values that hold a leaf, each in its place. -/
def leafTree : Value D → Value D
  | .list items => .list (leafItems items)
  | .dictionary entries => .dictionary (leafEntries entries)
  | value => value

def leafItems : List (Value D) → List (Value D)
  | [] => []
  | item :: rest => if holdsLeaf item then leafTree item :: leafItems rest else leafItems rest

def leafEntries : Entries D → Entries D
  | [] => []
  | (key, value) :: rest => if holdsLeaf value then (key, leafTree value) :: leafEntries rest else leafEntries rest

end

theorem anyHoldsLeaf_eq (items : List (Value D)) : anyHoldsLeaf items = items.any holdsLeaf := by
  induction items with
  | nil => rw [anyHoldsLeaf, List.any_nil]
  | cons item rest ih => rw [anyHoldsLeaf, ih, List.any_cons]

theorem anyEntryHoldsLeaf_eq (entries : Entries D) : anyEntryHoldsLeaf entries = entries.any fun entry => holdsLeaf entry.2 := by
  induction entries with
  | nil => rw [anyEntryHoldsLeaf, List.any_nil]
  | cons entry rest ih => rw [anyEntryHoldsLeaf, ih, List.any_cons]

theorem leafItems_eq (items : List (Value D)) : leafItems items = (items.filter holdsLeaf).map leafTree := by
  induction items with
  | nil => rw [leafItems, List.filter_nil, List.map_nil]
  | cons item rest ih =>
    rw [leafItems, ih, List.filter_cons]
    split <;> rfl

theorem leafEntries_eq (entries : Entries D) :
    leafEntries entries = (entries.filter fun entry => holdsLeaf entry.2).map fun entry => (entry.1, leafTree entry.2) := by
  induction entries with
  | nil => rw [leafEntries, List.filter_nil, List.map_nil]
  | cons entry rest ih =>
    rw [leafEntries, ih, List.filter_cons]
    split <;> rfl

theorem holdsLeaf_of_leaf {value : Value D} (leaf : isContainer value = false) : holdsLeaf value = true := by
  cases value with
  | list items => cases leaf
  | dictionary entries => cases leaf
  | _ => rw [holdsLeaf] <;> nofun

theorem leafTree_of_leaf {value : Value D} (leaf : isContainer value = false) : leafTree value = value := by
  cases value with
  | list items => cases leaf
  | dictionary entries => cases leaf
  | _ => rw [leafTree] <;> nofun

theorem leafItems_eq_nil {items : List (Value D)} : leafItems items = [] ↔ anyHoldsLeaf items = false := by
  rw [leafItems_eq, List.map_eq_nil_iff, List.filter_eq_nil_iff, anyHoldsLeaf_eq, List.any_eq_false]

theorem leafEntries_eq_nil {entries : Entries D} : leafEntries entries = [] ↔ anyEntryHoldsLeaf entries = false := by
  rw [leafEntries_eq, List.map_eq_nil_iff, List.filter_eq_nil_iff, anyEntryHoldsLeaf_eq, List.any_eq_false]

/-! ### The copy is the tree of the leaves -/

section Copy

variable [Zero D] {doubles : Doubles D}

/-- What `CopyWithoutEmptyChildren` should return. -/
def leafCopy (value : Value D) : Option (Value D) := if holdsLeaf value then some (leafTree value) else none

theorem copyList_eq {items : List (Value D)}
    (each : ∀ item ∈ items, copyWithoutEmptyChildren doubles item = leafCopy item) (copy : Option (List (Value D))) :
    copyListWithoutEmptyChildren doubles copy items =
      if anyHoldsLeaf items then some (copy.getD [] ++ leafItems items) else copy := by
  induction items generalizing copy with
  | nil => rfl
  | cons item rest ih =>
    have later := ih fun other member => each other (List.mem_cons_of_mem item member)
    rw [copyListWithoutEmptyChildren, each item List.mem_cons_self, leafCopy, anyHoldsLeaf, leafItems]
    cases holdsLeaf item with
    | false => exact later copy
    | true =>
      simp only [if_true, Bool.true_or, later]
      cases further : anyHoldsLeaf rest with
      | false => rw [leafItems_eq_nil.mpr further, if_neg Bool.false_ne_true]
      | true => rw [if_pos rfl, Option.getD_some, List.append_assoc, List.singleton_append]

theorem copyDictionary_eq {entries : Entries D}
    (each : ∀ entry ∈ entries, copyWithoutEmptyChildren doubles entry.2 = leafCopy entry.2)
    (copy : Option (Entries D)) (ascending : Ascending (copy.getD [] ++ entries)) :
    copyDictionaryWithoutEmptyChildren doubles copy entries =
      if anyEntryHoldsLeaf entries then some (copy.getD [] ++ leafEntries entries) else copy := by
  induction entries generalizing copy with
  | nil => rfl
  | cons entry rest ih =>
    have eachLater : ∀ other ∈ rest, copyWithoutEmptyChildren doubles other.2 = leafCopy other.2 :=
      fun other member => each other (List.mem_cons_of_mem entry member)
    obtain ⟨inCopy, inEntries, between⟩ := List.pairwise_append.mp ascending
    rw [copyDictionaryWithoutEmptyChildren, each entry List.mem_cons_self, leafCopy, anyEntryHoldsLeaf, leafEntries]
    cases holdsLeaf entry.2 with
    | false =>
      apply ih eachLater copy
      exact ascending.sublist ((List.sublist_cons_self entry rest).append_left _)
    | true =>
      have last : ∀ other ∈ copy.getD [], keyLess other.1 entry.1 = true := fun other member =>
        (keyLess_iff other.1 entry.1).mpr (between other member entry List.mem_cons_self)
      have ascendingLater : Ascending ((some (copy.getD [] ++ [(entry.1, leafTree entry.2)])).getD [] ++ rest) := by
        apply ascending.of_keys
        simp only [Option.getD_some, List.map_append, List.map_cons, List.append_assoc, List.singleton_append]
      simp only [if_true, Bool.true_or, setWithoutPathExpansion_last _ last, ih eachLater _ ascendingLater]
      cases further : anyEntryHoldsLeaf rest with
      | false => rw [leafEntries_eq_nil.mpr further, if_neg Bool.false_ne_true]
      | true => rw [if_pos rfl, Option.getD_some, List.append_assoc, List.singleton_append]

theorem copyWithoutEmptyChildren_eq {value : Value D} (built : Built doubles value) :
    copyWithoutEmptyChildren doubles value = leafCopy value := by
  induction value, built using Built.containers with
  | leaf value built leaf =>
    have copied : copyWithoutEmptyChildren doubles value = some (deepCopy doubles value) := by
      cases value with
      | list items => cases leaf
      | dictionary entries => cases leaf
      | _ => rw [copyWithoutEmptyChildren] <;> nofun
    rw [copied, leafCopy, holdsLeaf_of_leaf leaf, if_pos rfl, leafTree_of_leaf leaf, deepCopy_eq built]
  | list items built ih =>
    rw [copyWithoutEmptyChildren, copyList_eq ih, leafCopy, holdsLeaf, leafTree]
    split <;> rfl
  | dictionary entries built ih =>
    have each : ∀ entry ∈ entries, copyWithoutEmptyChildren doubles entry.2 = leafCopy entry.2 :=
      fun entry member => ih entry.1 entry.2 (get_of_mem built.ascending member)
    rw [copyWithoutEmptyChildren, copyDictionary_eq each none built.ascending, leafCopy, holdsLeaf, leafTree]
    split <;> rfl

theorem deepCopyWithoutEmptyChildren_eq {entries : Entries D} (built : Built doubles (.dictionary entries)) :
    deepCopyWithoutEmptyChildren doubles entries = leafEntries entries := by
  have each : ∀ entry ∈ entries, copyWithoutEmptyChildren doubles entry.2 = leafCopy entry.2 :=
    fun entry member => copyWithoutEmptyChildren_eq (built.entry (get_of_mem built.ascending member))
  rw [deepCopyWithoutEmptyChildren, copyDictionary_eq each none built.ascending]
  cases holds : anyEntryHoldsLeaf entries with
  | false => rw [leafEntries_eq_nil.mpr holds, if_neg Bool.false_ne_true, Option.getD_none]
  | true => rw [if_pos rfl, Option.getD_some, Option.getD_none, List.nil_append]

end Copy

/-! Where the values of a tree are in its copy without empty children. -/

variable {D : Type} {doubles : Doubles D}

/-! ### Steps down a tree -/

/-- One step down: to the entry of a key, or to an item of a list. -/
inductive Step where
  | key (key : Key)
  | index (i : Nat)

/-- The key of a step, where it is one to an entry. -/
def Step.key? : Step → Option Key
  | .key name => some name
  | .index _ => none

def itemsOf : Value D → List (Value D)
  | .list items => items
  | _ => []

def child (value : Value D) : Step → Option (Value D)
  | .key key => getWithoutPathExpansion (entriesOf value) key
  | .index i => (itemsOf value)[i]?

def reach : List Step → Value D → Option (Value D)
  | [], value => some value
  | step :: steps, value => (child value step).bind (reach steps)

/-- The position of an item among those that hold a leaf. -/
def newIndex (items : List (Value D)) (i : Nat) : Nat := (items.take i).countP holdsLeaf

def newStep (value : Value D) : Step → Step
  | .key key => .key key
  | .index i => .index (newIndex (itemsOf value) i)

/-- The same keys, and of each list the new positions. -/
def newSteps : List Step → Value D → List Step
  | [], _ => []
  | step :: steps, value => newStep value step :: ((child value step).map (newSteps steps)).getD steps

/-! ### One step in the tree of the leaves -/

variable {entries : Entries D}

theorem leafEntries_ascending (ascending : Ascending entries) : Ascending (leafEntries entries) := by
  have kept : Ascending (entries.filter fun entry => holdsLeaf entry.2) := ascending.sublist List.filter_sublist
  rw [leafEntries_eq]
  apply kept.of_keys
  rw [List.map_map]
  rfl

theorem get_leafEntries (ascending : Ascending entries) (key : Key) (value : Value D) :
    getWithoutPathExpansion (leafEntries entries) key = some value ↔
      ∃ old, getWithoutPathExpansion entries key = some old ∧ holdsLeaf old = true ∧ leafTree old = value := by
  constructor
  · intro found
    have member := mem_of_get found
    rw [leafEntries_eq] at member
    obtain ⟨entry, kept, same⟩ := List.mem_map.mp member
    obtain ⟨old, holds⟩ := List.mem_filter.mp kept
    obtain ⟨rfl, rfl⟩ := Prod.mk.inj same
    exact ⟨entry.2, get_of_mem ascending old, holds, rfl⟩
  · rintro ⟨old, found, holds, rfl⟩
    have member : (key, leafTree old) ∈ leafEntries entries := by
      rw [leafEntries_eq]
      exact List.mem_map.mpr ⟨(key, old), List.mem_filter.mpr ⟨mem_of_get found, holds⟩, rfl⟩
    exact get_of_mem (leafEntries_ascending ascending) member

theorem entriesOf_leafTree (value : Value D) : entriesOf (leafTree value) = leafEntries (entriesOf value) := by
  cases value with
  | list items => rw [leafTree]; rfl
  | dictionary entries => rw [leafTree]; rfl
  | _ => rw [leafTree_of_leaf rfl]; rfl

theorem itemsOf_leafTree (value : Value D) : itemsOf (leafTree value) = leafItems (itemsOf value) := by
  cases value with
  | list items => rw [leafTree]; rfl
  | dictionary entries => rw [leafTree]; rfl
  | _ => rw [leafTree_of_leaf rfl]; rfl

variable {value : Value D}

theorem child_leafTree (built : Built doubles value) (step : Step) (copy : Value D) :
    child (leafTree value) step = some copy ↔
      ∃ old original, newStep value old = step ∧ child value old = some original ∧ holdsLeaf original = true ∧
        leafTree original = copy := by
  cases step with
  | key key =>
    rw [child, entriesOf_leafTree, get_leafEntries built.entriesOf.ascending]
    constructor
    · rintro ⟨original, found, holds, same⟩
      exact ⟨.key key, original, rfl, found, holds, same⟩
    · rintro ⟨old, original, same, found, rest⟩
      cases old with
      | key other =>
        cases same
        exact ⟨original, found, rest⟩
      | index i => cases same
  | index j =>
    rw [child, itemsOf_leafTree, leafItems_eq, List.getElem?_map]
    constructor
    · intro found
      obtain ⟨original, kept, same⟩ := Option.map_eq_some_iff.mp found
      obtain ⟨i, there, position, holds⟩ := exists_of_getElem?_filter kept
      exact ⟨.index i, original, congrArg Step.index position, there, holds, same⟩
    · rintro ⟨old, original, same, found, holds, rfl⟩
      cases old with
      | key other => cases same
      | index i =>
        cases same
        rw [newIndex, getElem?_filter_countP found holds]
        rfl

/-! ### Steps down the tree of the leaves -/

variable {step : Step}

theorem newSteps_cons {child : Value D} (found : Values.child value step = some child) (steps : List Step) :
    newSteps (step :: steps) value = newStep value step :: newSteps steps child := by
  rw [newSteps, found]
  rfl

theorem Built.child {child : Value D} (built : Built doubles value) (found : Values.child value step = some child) :
    Built doubles child := by
  cases step with
  | key key => exact built.entriesOf.entry found
  | index i =>
    cases value with
    | list items => exact built.item (List.mem_of_getElem? found)
    | _ => cases found

theorem holdsLeaf_of_child {child : Value D} (found : Values.child value step = some child)
    (holds : holdsLeaf child = true) : holdsLeaf value = true := by
  cases value with
  | list items =>
    cases step with
    | key key => cases found
    | index i =>
      rw [holdsLeaf, anyHoldsLeaf_eq]
      exact List.any_eq_true.mpr ⟨child, List.mem_of_getElem? found, holds⟩
  | dictionary entries =>
    cases step with
    | key key =>
      rw [holdsLeaf, anyEntryHoldsLeaf_eq]
      exact List.any_eq_true.mpr ⟨(key, child), mem_of_get found, holds⟩
    | index i => cases found
  | _ => exact holdsLeaf_of_leaf rfl

variable {steps : List Step}

theorem holdsLeaf_of_reach {found : Value D} (there : reach steps value = some found) (holds : holdsLeaf found = true) :
    holdsLeaf value = true := by
  induction steps generalizing value with
  | nil => exact Option.some.inj there ▸ holds
  | cons step steps ih =>
    obtain ⟨child, here, further⟩ := Option.bind_eq_some_iff.mp there
    exact holdsLeaf_of_child here (ih further)

theorem reach_newSteps {found : Value D} (built : Built doubles value) (there : reach steps value = some found)
    (holds : holdsLeaf found = true) : reach (newSteps steps value) (leafTree value) = some (leafTree found) := by
  induction steps generalizing value with
  | nil => exact congrArg (fun value => some (leafTree value)) (Option.some.inj there)
  | cons step steps ih =>
    obtain ⟨child, here, further⟩ := Option.bind_eq_some_iff.mp there
    have inCopy := (child_leafTree built (newStep value step) (leafTree child)).mpr
      ⟨step, child, rfl, here, holdsLeaf_of_reach further holds, rfl⟩
    rw [newSteps_cons here, reach, inCopy, Option.bind_some]
    exact ih (built.child here) further

theorem exists_of_reach_leafTree {copy : Value D} (built : Built doubles value)
    (there : reach steps (leafTree value) = some copy) :
    ∃ origin original, newSteps origin value = steps ∧ reach origin value = some original ∧
      (steps ≠ [] → holdsLeaf original = true) ∧ leafTree original = copy := by
  induction steps generalizing value with
  | nil => exact ⟨[], value, rfl, rfl, fun nonempty => absurd rfl nonempty, Option.some.inj there⟩
  | cons step steps ih =>
    obtain ⟨copyChild, here, further⟩ := Option.bind_eq_some_iff.mp there
    obtain ⟨old, child, rfl, found, childHolds, rfl⟩ := (child_leafTree built step copyChild).mp here
    obtain ⟨origin, original, rfl, reached, holds, rfl⟩ := ih (built.child found) further
    refine ⟨old :: origin, original, newSteps_cons found origin, ?_, fun _ => ?_, rfl⟩
    · rw [reach, found, Option.bind_some, reached]
    · cases origin with
      | nil => exact Option.some.inj reached ▸ childHolds
      | cons next origin => exact holds (List.cons_ne_nil _ _)

theorem newStep_injective {child other : Value D} {otherStep : Step} (found : Values.child value step = some child)
    (holds : holdsLeaf child = true) (otherFound : Values.child value otherStep = some other)
    (otherHolds : holdsLeaf other = true) (same : newStep value step = newStep value otherStep) :
    step = otherStep := by
  cases step with
  | key key =>
    cases otherStep with
    | key otherKey => exact same
    | index j => cases same
  | index i =>
    cases otherStep with
    | key otherKey => cases same
    | index j =>
      have positions : newIndex (itemsOf value) i = newIndex (itemsOf value) j := Step.index.inj same
      rcases Nat.lt_trichotomy i j with before | rfl | behind
      · exact absurd positions (countP_take_lt found holds before).ne
      · rfl
      · exact absurd positions (countP_take_lt otherFound otherHolds behind).ne'

theorem newSteps_injective {others : List Step} {found other : Value D} (there : reach steps value = some found)
    (holds : holdsLeaf found = true) (otherThere : reach others value = some other)
    (otherHolds : holdsLeaf other = true) (same : newSteps steps value = newSteps others value) : steps = others := by
  induction steps generalizing value others with
  | nil =>
    cases others with
    | nil => rfl
    | cons step others => cases same
  | cons step steps ih =>
    cases others with
    | nil => cases same
    | cons otherStep others =>
      obtain ⟨child, here, further⟩ := Option.bind_eq_some_iff.mp there
      obtain ⟨otherChild, otherHere, otherFurther⟩ := Option.bind_eq_some_iff.mp otherThere
      rw [newSteps_cons here, newSteps_cons otherHere, List.cons.injEq] at same
      have steps := newStep_injective here (holdsLeaf_of_reach further holds) otherHere
        (holdsLeaf_of_reach otherFurther otherHolds) same.1
      subst steps
      cases Option.some.inj (here.symm.trans otherHere)
      rw [ih further otherFurther same.2]

theorem keys_newSteps (steps : List Step) (value : Value D) :
    (newSteps steps value).filterMap Step.key? = steps.filterMap Step.key? := by
  induction steps generalizing value with
  | nil => rfl
  | cons step steps ih =>
    have rest : (((child value step).map (newSteps steps)).getD steps).filterMap Step.key? = steps.filterMap Step.key? := by
      cases child value step with
      | none => rfl
      | some child => exact ih child
    have first : (newStep value step).key? = step.key? := by cases step <;> rfl
    rw [newSteps, List.filterMap_cons, List.filterMap_cons, first, rest]

/-! ### The tree of the leaves -/

theorem leafTree_ne_empty (holds : holdsLeaf value = true) :
    leafTree value ≠ .list [] ∧ leafTree value ≠ .dictionary [] := by
  cases value with
  | list items =>
    rw [leafTree]
    rw [holdsLeaf] at holds
    simp only [ne_eq, Value.list.injEq, leafItems_eq_nil, holds, reduceCtorEq, not_false_eq_true, and_self,
      Bool.true_eq_false]
  | dictionary entries =>
    rw [leafTree]
    rw [holdsLeaf] at holds
    simp only [ne_eq, Value.dictionary.injEq, leafEntries_eq_nil, holds, reduceCtorEq, not_false_eq_true, and_self,
      Bool.true_eq_false]
  | _ =>
    rw [leafTree_of_leaf rfl]
    simp only [ne_eq, reduceCtorEq, not_false_eq_true, and_self]

theorem leafItems_leafItems {items : List (Value D)} (holds : ∀ item ∈ items, holdsLeaf (leafTree item) = holdsLeaf item)
    (same : ∀ item ∈ items, leafTree (leafTree item) = leafTree item) : leafItems (leafItems items) = leafItems items := by
  have kept : ∀ item ∈ items.filter holdsLeaf, (holdsLeaf ∘ leafTree) item = true := by
    intro item member
    obtain ⟨inside, itemHolds⟩ := List.mem_filter.mp member
    exact (holds item inside).trans itemHolds
  rw [leafItems_eq (leafItems items), leafItems_eq items, List.filter_map, List.filter_eq_self.mpr kept, List.map_map]
  exact List.map_congr_left fun item member => same item (List.mem_filter.mp member).1

theorem leafEntries_leafEntries (holds : ∀ entry ∈ entries, holdsLeaf (leafTree entry.2) = holdsLeaf entry.2)
    (same : ∀ entry ∈ entries, leafTree (leafTree entry.2) = leafTree entry.2) :
    leafEntries (leafEntries entries) = leafEntries entries := by
  have kept : ∀ entry ∈ entries.filter fun entry => holdsLeaf entry.2,
      ((fun entry => holdsLeaf entry.2) ∘ fun entry : Key × Value D => (entry.1, leafTree entry.2)) entry = true := by
    intro entry member
    obtain ⟨inside, entryHolds⟩ := List.mem_filter.mp member
    exact (holds entry inside).trans entryHolds
  rw [leafEntries_eq (leafEntries entries), leafEntries_eq entries, List.filter_map, List.filter_eq_self.mpr kept,
    List.map_map]
  apply List.map_congr_left
  intro entry member
  exact congrArg (Prod.mk entry.1) (same entry (List.mem_filter.mp member).1)

theorem holdsLeaf_leafTree (built : Built doubles value) : holdsLeaf (leafTree value) = holdsLeaf value := by
  induction value, built using Built.containers with
  | leaf value built leaf => rw [leafTree_of_leaf leaf]
  | list items built ih =>
    rw [leafTree, holdsLeaf, holdsLeaf, anyHoldsLeaf_eq, anyHoldsLeaf_eq, leafItems_eq, List.any_map, List.any_filter,
      Bool.eq_iff_iff, List.any_eq_true, List.any_eq_true]
    apply exists_congr
    intro item
    apply and_congr_right
    intro member
    rw [Function.comp_apply, ih item member, Bool.and_self]
  | dictionary entries built ih =>
    rw [leafTree, holdsLeaf, holdsLeaf, anyEntryHoldsLeaf_eq, anyEntryHoldsLeaf_eq, leafEntries_eq, List.any_map,
      List.any_filter, Bool.eq_iff_iff, List.any_eq_true, List.any_eq_true]
    apply exists_congr
    intro entry
    apply and_congr_right
    intro member
    rw [Function.comp_apply, ih entry.1 entry.2 (get_of_mem built.ascending member), Bool.and_self]

theorem leafTree_leafTree (built : Built doubles value) : leafTree (leafTree value) = leafTree value := by
  induction value, built using Built.containers with
  | leaf value built leaf => rw [leafTree_of_leaf leaf, leafTree_of_leaf leaf]
  | list items built ih =>
    rw [leafTree, leafTree, leafItems_leafItems (fun item member => holdsLeaf_leafTree (built.item member)) ih]
  | dictionary entries built ih =>
    have entry {entry : Key × Value D} (member : entry ∈ entries) := get_of_mem built.ascending member
    rw [leafTree, leafTree, leafEntries_leafEntries
      (fun other member => holdsLeaf_leafTree (built.entry (entry member)))
      (fun other member => ih other.1 other.2 (entry member))]

theorem Built.leafTree (built : Built doubles value) : Built doubles (leafTree value) := by
  induction value, built using Built.containers with
  | leaf value built leaf =>
    rw [leafTree_of_leaf leaf]
    exact built
  | list items built ih =>
    rw [Values.leafTree, leafItems_eq]
    apply Built.list
    intro item member
    obtain ⟨original, kept, rfl⟩ := List.mem_map.mp member
    exact ih original (List.mem_filter.mp kept).1
  | dictionary entries built ih =>
    rw [Values.leafTree]
    apply Built.dictionary _ (leafEntries_ascending built.ascending)
    intro entry member
    rw [leafEntries_eq] at member
    obtain ⟨original, kept, rfl⟩ := List.mem_map.mp member
    exact ih original.1 original.2 (get_of_mem built.ascending (List.mem_filter.mp kept).1)

/-! ### The copy of a dictionary -/

namespace DictionaryValue

variable [Zero D] (dictionary : DictionaryValue doubles)

theorem tree_copy :
    Value.dictionary (Values.deepCopyWithoutEmptyChildren doubles dictionary.entries) = leafTree dictionary.tree := by
  rw [deepCopyWithoutEmptyChildren_eq dictionary.built, tree, leafTree]

def deepCopyWithoutEmptyChildren : DictionaryValue doubles where
  entries := Values.deepCopyWithoutEmptyChildren doubles dictionary.entries
  built := dictionary.tree_copy ▸ dictionary.built.leafTree

/-- The same leaf, or a container of the same kind. -/
def SameNode : Value D → Value D → Prop
  | .list _, .list _ => True
  | .dictionary _, .dictionary _ => True
  | original, value => original = value

omit [Zero D] in
theorem sameNode_leafTree (value : Value D) : SameNode value (leafTree value) := by
  cases value with
  | list items =>
    rw [leafTree]
    trivial
  | dictionary entries =>
    rw [leafTree]
    trivial
  | _ =>
    rw [leafTree_of_leaf rfl]
    rfl

/-- A copy holds the leaves of the dictionary in their order, and nothing that they do not need. -/
structure LeavesOnly (copy : DictionaryValue doubles) : Prop where
  noEmpty : ∀ steps value, steps ≠ [] → reach steps copy.tree = some value → value ≠ .list [] ∧ value ≠ .dictionary []
  leaves : ∀ steps leaf, reach steps dictionary.tree = some leaf → isContainer leaf = false →
    reach (newSteps steps dictionary.tree) copy.tree = some leaf
  keys : ∀ steps, (newSteps steps dictionary.tree).filterMap Step.key? = steps.filterMap Step.key?
  inOrder : ∀ steps items i j item, reach steps dictionary.tree = some (.list items) → items[i]? = some item →
    holdsLeaf item = true → i < j → newIndex items i < newIndex items j
  apart : ∀ steps others leaf other, reach steps dictionary.tree = some leaf → isContainer leaf = false →
    reach others dictionary.tree = some other → isContainer other = false →
      newSteps steps dictionary.tree = newSteps others dictionary.tree → steps = others
  nothingElse : ∀ steps value, reach steps copy.tree = some value →
    ∃ origin original, newSteps origin dictionary.tree = steps ∧ reach origin dictionary.tree = some original ∧
      SameNode original value
  again : equals doubles copy.deepCopyWithoutEmptyChildren.tree copy.tree = true

theorem tree_deepCopyWithoutEmptyChildren : dictionary.deepCopyWithoutEmptyChildren.tree = leafTree dictionary.tree :=
  dictionary.tree_copy

theorem deepCopyWithoutEmptyChildren_leavesOnly : dictionary.LeavesOnly dictionary.deepCopyWithoutEmptyChildren where
  noEmpty steps value nonempty there := by
    rw [tree_deepCopyWithoutEmptyChildren] at there
    obtain ⟨origin, original, -, -, holds, rfl⟩ := exists_of_reach_leafTree dictionary.built_tree there
    exact leafTree_ne_empty (holds nonempty)
  leaves steps leaf there isLeaf := by
    rw [tree_deepCopyWithoutEmptyChildren, reach_newSteps dictionary.built_tree there (holdsLeaf_of_leaf isLeaf),
      leafTree_of_leaf isLeaf]
  keys steps := keys_newSteps steps dictionary.tree
  inOrder _ _ _ _ _ _ found holds before := countP_take_lt found holds before
  apart _ _ _ _ there isLeaf otherThere otherIsLeaf same :=
    newSteps_injective there (holdsLeaf_of_leaf isLeaf) otherThere (holdsLeaf_of_leaf otherIsLeaf) same
  nothingElse steps value there := by
    rw [tree_deepCopyWithoutEmptyChildren] at there
    obtain ⟨origin, original, same, reached, -, rfl⟩ := exists_of_reach_leafTree dictionary.built_tree there
    exact ⟨origin, original, same, reached, sameNode_leafTree original⟩
  again := by
    rw [tree_deepCopyWithoutEmptyChildren, tree_deepCopyWithoutEmptyChildren, leafTree_leafTree dictionary.built_tree]
    exact dictionary.built_tree.leafTree.equals_self

end DictionaryValue

end Libchrome.Base.Values
