import Mathlib.Data.List.ReduceOption
import Libchrome.Library.Keyed
import Libchrome.Base.Containers.SmallMap

/-! A `SmallMap` is a finite map, whether its elements are in the array or in the map. -/

namespace Libchrome.Base.Containers
open Library.Keyed

/-- The map that a `SmallMap` stands for. -/
abbrev Reference (K V : Type) := Finmap fun _ : K => V

variable {K V : Type} [DecidableEq K]

/-- What is asked of the finite maps, where an iterator is the key it points at. -/
inductive SmallMapRequest (K V : Type) where
  | insert (self : Nat) (key : K) (value : V)
  | bracket (self : Nat) (key : K) (update : V → V)
  | find (self : Nat) (key : K)
  | eraseAt (self : Nat) (key : K)
  | erase (self : Nat) (key : K)
  | clear (self : Nat)
  | copy (src : Nat)
  | assign (self src : Nat)

/-- A result, with the element that an iterator points at. -/
inductive SmallMapAnswer (K V : Type) where
  | done
  | element (element : Option (K × V))
  | inserted (element : Option (K × V)) (isNew : Bool)
  | value (value : V)
  | count (count : Nat)

namespace SmallMapRequest

/-- The element of a key, as a pair. -/
def element (map : Reference K V) (key : K) : Option (K × V) := (map.lookup key).map fun value => (key, value)

/-- The map after an insertion, which keeps a value that is there. -/
def inserted (map : Reference K V) (key : K) (value : V) : Reference K V :=
  if key ∈ map then map else map.insert key value

/-- The map after `operator[]` and what is done with its reference. -/
def bracketed (init : V) (map : Reference K V) (key : K) (update : V → V) : Reference K V :=
  map.insert key (update ((map.lookup key).getD init))

/-- The maps after a request; none where it names no map. -/
def after (init : V) (maps : List (Reference K V)) : SmallMapRequest K V → Option (List (Reference K V))
  | insert self key value => maps[self]?.map fun map => maps.set self (inserted map key value)
  | bracket self key update => maps[self]?.map fun map => maps.set self (bracketed init map key update)
  | find self _ => maps[self]?.map fun _ => maps
  | eraseAt self key => maps[self]?.map fun map => maps.set self (map.erase key)
  | erase self key => maps[self]?.map fun map => maps.set self (map.erase key)
  | clear self => maps[self]?.map fun _ => maps.set self ∅
  | copy src => maps[src]?.map fun map => maps ++ [map]
  | assign self src => maps[self]?.bind fun _ => maps[src]?.map fun map => maps.set self map

def answer (init : V) (maps : List (Reference K V)) : SmallMapRequest K V → SmallMapAnswer K V
  | insert self key value =>
    let map := maps.getD self ∅
    .inserted (element (inserted map key value) key) (key ∉ map)
  | bracket self key _ => .value (((maps.getD self ∅).lookup key).getD init)
  | find self key => .element (element (maps.getD self ∅) key)
  | erase self key => .count (if key ∈ maps.getD self ∅ then 1 else 0)
  | _ => .done

end SmallMapRequest

namespace SmallMap

/-- The element that an iterator of a map points at. -/
def elementAt (small : SmallMap K V) : SmallMapIterator K → Option (K × V)
  | .array i =>
    match small.storage with
    | .array slots => if (i : Int) < small.size then slots.get i else none
    | .map _ => none
  | .hash (some key) =>
    match small.storage with
    | .array _ => none
    | .map map => (map.lookup key).map fun value => (key, value)
  | .hash none => none

/-- What a call asks of the finite maps, unless its iterator points to no element. -/
def request (maps : List (SmallMap K V)) : SmallMapCall K V → Option (SmallMapRequest K V)
  | .insert self key value => some (.insert self key value)
  | .bracket self key update => some (.bracket self key update)
  | .find self key => some (.find self key)
  | .eraseAt self position => maps[self]?.bind fun small =>
      (small.elementAt position).map fun element => .eraseAt self element.1
  | .erase self key => some (.erase self key)
  | .clear self => some (.clear self)
  | .copy src => some (.copy src)
  | .assign self src => some (.assign self src)

/-- What a result says of the maps after a call. -/
def observe (maps : List (SmallMap K V)) (self : Nat) : SmallMapResult K V → SmallMapAnswer K V
  | .done => .done
  | .iterator position => .element (maps[self]?.bind fun small => small.elementAt position)
  | .inserted position isNew => .inserted (maps[self]?.bind fun small => small.elementAt position) isNew
  | .value value => .value value
  | .count count => .count count

end SmallMap

/-- A `SmallMap` is well made and stands for this finite map: its elements fill the first slots, or are in the map. -/
inductive Represents (kArraySize : Nat) : SmallMap K V → Reference K V → Prop
  | array (elements : List (K × V)) (map : Reference K V) (fits : elements.length ≤ kArraySize) (lists : Lists elements map) :
      Represents kArraySize ⟨elements.length, .array (slotsOf kArraySize elements)⟩ map
  | map (normal : NormalMap K V) (map : Reference K V) (same : ∀ key, normal.lookup key = map.lookup key) :
      Represents kArraySize ⟨-1, .map normal⟩ map

/-! ### The full map -/

section

variable {kArraySize : Nat} {map : Reference K V} {elements : List (K × V)}

theorem lookup_insertNew (normal : NormalMap K V) (key other : K) (value : V) :
    (normal.insert (key, value)).1.lookup other =
      if other = key ∧ normal.lookup key = none then some value else normal.lookup other := by
  unfold NormalMap.insert
  by_cases there : key ∈ normal
  · have some_ : normal.lookup key ≠ none := by
      rw [Ne, AList.lookup_eq_none]
      exact not_not.mpr there
    rw [if_pos there, if_neg (fun both => some_ both.2)]
  · have none_ := AList.lookup_eq_none.mpr there
    rw [if_neg there]
    by_cases same : other = key
    · subst same
      rw [AList.lookup_insert, if_pos ⟨rfl, none_⟩]
    · rw [AList.lookup_insert_ne same, if_neg (fun both => same both.1)]

theorem foldl_insert (elements : List (K × V)) (unique : (elements.map Prod.fst).Nodup) (normal : NormalMap K V)
    (free : ∀ element ∈ elements, normal.lookup element.1 = none) (key : K) (value : V) :
    (elements.foldl (fun map value => (map.insert value).1) normal).lookup key = some value ↔
      (key, value) ∈ elements ∨ normal.lookup key = some value := by
  induction elements generalizing normal with
  | nil => simp only [List.foldl_nil, List.not_mem_nil, false_or]
  | cons element rest inductive_hypothesis =>
    rw [List.map_cons, List.nodup_cons] at unique
    have none_ := free element List.mem_cons_self
    have others : ∀ other ∈ rest, other.1 ≠ element.1 := by
      intro other member same
      exact unique.1 (same ▸ List.mem_map_of_mem member)
    rw [List.foldl_cons, inductive_hypothesis unique.2]
    · rw [lookup_insertNew, List.mem_cons]
      by_cases same : key = element.1
      · subst same
        simp only [none_, and_self, if_true, Option.some.injEq, reduceCtorEq, or_false]
        constructor
        · intro either
          rcases either with member | same
          · exact Or.inr member
          · subst same
            exact Or.inl rfl
        · intro either
          rcases either with same | member
          · exact Or.inr (congrArg Prod.snd same).symm
          · exact Or.inl member
      · rw [if_neg (fun both => same both.1)]
        have different : (key, value) ≠ element := fun equal => same (congrArg Prod.fst equal)
        simp only [different, false_or]
    · intro other member
      rw [lookup_insertNew, if_neg (fun both => others other member both.1)]
      exact free other (List.mem_cons_of_mem _ member)

theorem convertToRealMap_same (lists : Lists elements map) (full : elements.length = kArraySize) :
    ∃ normal, SmallMap.convertToRealMap kArraySize (slotsOf kArraySize elements) = some normal ∧
      ∀ key, normal.lookup key = map.lookup key := by
  have taken := Slots.takeFrom_slotsOf full
  rw [Option.map_eq_some_iff] at taken
  rcases taken with ⟨⟨all, slots⟩, taken, same⟩
  change all = elements at same
  subst same
  refine ⟨all.foldl (fun map value => (map.insert value).1) ∅, by rw [SmallMap.convertToRealMap, taken]; rfl, ?_⟩
  intro key
  apply Option.ext
  intro value
  rw [foldl_insert _ lists.unique ∅ (by simp), lists.same]
  simp only [AList.lookup_empty, reduceCtorEq, or_false]

end

/-! ### One operation on one map -/

section

variable {kArraySize : Nat} {small : SmallMap K V} {map : Reference K V} {elements : List (K × V)}

theorem elementAt_array (i : Nat) :
    SmallMap.elementAt ⟨elements.length, .array (slotsOf kArraySize elements)⟩ (SmallMapIterator.array i : SmallMapIterator K) =
      elements[i]? := by
  simp only [SmallMap.elementAt, Int.ofNat_lt]
  by_cases inside : i < elements.length
  · rw [if_pos inside]
    have there : elements[i]? = some elements[i] := List.getElem?_eq_getElem inside
    rw [Slots.get_slotsOf there, there]
  · rw [if_neg inside, List.getElem?_eq_none (Nat.le_of_not_lt inside)]

theorem lookup_of_finds (lists : Lists elements map) {key : K} {found : Option Nat} (finds : Slots.Finds elements key found) :
    SmallMapRequest.element map key = found.bind fun i => elements[i]? := by
  cases found with
  | none =>
    rw [SmallMapRequest.element, lists.lookup_eq_none_iff.mpr finds]
    rfl
  | some i =>
    rcases finds with ⟨value, there⟩
    rw [SmallMapRequest.element, (lists.same key value).mp (List.mem_of_getElem? there), Option.bind_some, there]
    rfl

theorem not_mem_iff {key : K} : key ∉ map ↔ map.lookup key = none := Finmap.lookup_eq_none.symm

theorem insertInMap {normal : NormalMap K V} (same : ∀ key, normal.lookup key = map.lookup key) (key : K) (value : V) :
    Represents kArraySize ⟨-1, .map (normal.insert (key, value)).1⟩ (SmallMapRequest.inserted map key value) ∧
      SmallMap.elementAt ⟨-1, .map (normal.insert (key, value)).1⟩ (.hash (some key)) =
        SmallMapRequest.element (SmallMapRequest.inserted map key value) key ∧
      (normal.insert (key, value)).2 = decide (key ∉ map) := by
  have after : ∀ other, (normal.insert (key, value)).1.lookup other = (SmallMapRequest.inserted map key value).lookup other := by
    intro other
    rw [lookup_insertNew, SmallMapRequest.inserted, same, same]
    by_cases there : key ∈ map
    · have some_ := mt not_mem_iff.mpr (not_not.mpr there)
      rw [if_pos there, if_neg (fun both => some_ both.2)]
    · rw [if_neg there, lookup_insert, not_mem_iff.mp there]
      simp only [and_true]
  refine ⟨.map _ _ after, ?_, ?_⟩
  · rw [SmallMap.elementAt, SmallMapRequest.element, ← after]
  · unfold NormalMap.insert
    have mem : key ∈ normal ↔ key ∈ map := by
      rw [← AList.lookup_isSome, same, Finmap.lookup_isSome]
    by_cases there : key ∈ map
    · rw [if_pos (mem.mpr there)]
      simp only [there, not_true_eq_false, decide_false]
    · rw [if_neg (mt mem.mp there)]
      simp only [there, not_false_eq_true, decide_true]

theorem insert_represents (represents : Represents kArraySize small map) (key : K) (value : V) :
    ∃ next position isNew, small.insert kArraySize (key, value) = some (next, position, isNew) ∧
      Represents kArraySize next (SmallMapRequest.inserted map key value) ∧
      next.elementAt position = SmallMapRequest.element (SmallMapRequest.inserted map key value) key ∧
      isNew = decide (key ∉ map) := by
  cases represents with
  | array elements map fits lists =>
    rcases Slots.find_finds kArraySize key elements with ⟨found, searched, finds⟩
    have element := lookup_of_finds lists finds
    have notNegative : ¬ ((elements.length : Int) < 0) := by omega
    simp only [SmallMap.insert, if_neg notNegative, Int.toNat_natCast, searched, Option.bind_some]
    cases found with
    | some i =>
      rcases finds with ⟨old, there⟩
      have lookup := (lists.same key old).mp (List.mem_of_getElem? there)
      have present : key ∈ map := by
        rw [← Finmap.lookup_isSome, lookup]
        rfl
      rw [SmallMapRequest.inserted, if_pos present]
      refine ⟨_, .array i, false, rfl, .array elements map fits lists, ?_, ?_⟩
      · rw [elementAt_array, element, Option.bind_some]
      · simp only [present, not_true_eq_false, decide_false]
    | none =>
      have none_ := lists.lookup_eq_none_iff.mpr finds
      have absent := not_mem_iff.mpr none_
      by_cases full : elements.length = kArraySize
      · rcases convertToRealMap_same lists full with ⟨normal, converted, same⟩
        rw [if_pos (by omega), converted]
        exact ⟨_, _, _, rfl, insertInMap same key value⟩
      · have room : elements.length < kArraySize := by omega
        have after := (lists.cons none_ value).perm (List.perm_append_singleton (key, value) elements)
        have size : ((elements.length : Int) + 1) = ((elements ++ [(key, value)]).length : Nat) := by
          rw [List.length_append, List.length_singleton]
          rfl
        rw [if_neg (by omega), Slots.init_slotsOf room, SmallMapRequest.inserted, if_neg absent]
        simp only [Option.map_some, size]
        refine ⟨_, .array elements.length, true, rfl, .array _ _ ?_ after, ?_, ?_⟩
        · rw [List.length_append]
          exact room
        · rw [elementAt_array, List.getElem?_append_right (Nat.le_refl _), Nat.sub_self, SmallMapRequest.element, lookup_insert,
            if_pos rfl]
          rfl
        · simp only [absent, not_false_eq_true, decide_true]
  | map normal map same =>
    exact ⟨_, _, _, rfl, insertInMap same key value⟩

theorem find_represents (represents : Represents kArraySize small map) (key : K) :
    ∃ position, small.find key = some position ∧ small.elementAt position = SmallMapRequest.element map key ∧
      (position = small.end_ ↔ key ∉ map) := by
  rw [not_mem_iff]
  cases represents with
  | array elements map fits lists =>
    rcases Slots.find_finds kArraySize key elements with ⟨found, searched, finds⟩
    have element := lookup_of_finds lists finds
    have notNegative : (0 : Int) ≤ elements.length := Int.natCast_nonneg _
    simp only [SmallMap.find, if_pos notNegative, Int.toNat_natCast, searched, Option.map_some, SmallMap.end_]
    refine ⟨_, rfl, ?_, ?_⟩
    · rw [elementAt_array, element]
      cases found with
      | some i => rfl
      | none => exact List.getElem?_eq_none (Nat.le_refl _)
    · rw [SmallMapIterator.array.injEq]
      cases found with
      | some i =>
        rcases finds with ⟨value, there⟩
        have inside := (List.getElem?_eq_some_iff.mp there).1
        rw [(lists.same key value).mp (List.mem_of_getElem? there), Option.getD_some]
        simp only [reduceCtorEq, iff_false]
        omega
      | none =>
        rw [lists.lookup_eq_none_iff.mpr finds]
        simp only [Option.getD_none]
  | map normal map same =>
    have negative : ¬ (0 : Int) ≤ -1 := by decide
    simp only [SmallMap.find, if_neg negative, SmallMap.end_]
    refine ⟨_, rfl, ?_, ?_⟩
    · by_cases there : key ∈ normal
      · rw [if_pos there, SmallMap.elementAt, SmallMapRequest.element, ← same]
      · rw [if_neg there, SmallMap.elementAt, SmallMapRequest.element, ← same, AList.lookup_eq_none.mpr there]
        rfl
    · rw [← same, AList.lookup_eq_none]
      by_cases there : key ∈ normal
      · simp only [there, if_true, SmallMapIterator.hash.injEq, reduceCtorEq, not_true_eq_false]
      · simp only [there, if_false, not_false_eq_true]

theorem bracketInMap (kArraySize : Nat) {normal : NormalMap K V} (same : ∀ key, normal.lookup key = map.lookup key) (init : V) (update : V → V)
    (key : K) :
    (normal.bracket key init).lookup key = some ((map.lookup key).getD init) ∧
      Represents kArraySize
        ⟨-1, .map (AList.insert key (update ((map.lookup key).getD init)) (normal.bracket key init))⟩
        (SmallMapRequest.bracketed init map key update) := by
  constructor
  · rw [NormalMap.bracket, lookup_insertNew, same]
    cases map.lookup key with
    | none => rw [if_pos ⟨rfl, rfl⟩, Option.getD_none]
    | some value => rw [if_neg (by simp), Option.getD_some]
  · apply Represents.map
    intro other
    rw [SmallMapRequest.bracketed, lookup_insert]
    by_cases here : other = key
    · subst here
      rw [AList.lookup_insert, if_pos rfl]
    · rw [AList.lookup_insert_ne here, if_neg here, NormalMap.bracket, lookup_insertNew, if_neg (fun both => here both.1), same]

theorem set_between {α : Type} (front back : List α) (item new : α) :
    (front ++ item :: back).set front.length new = front ++ new :: back := by
  rw [List.set_append_right _ _ (Nat.le_refl _), Nat.sub_self, List.set_cons_zero]

theorem bracket_represents (represents : Represents kArraySize small map) (init : V) (update : V → V) (key : K) :
    ∃ next, SmallMap.bracket kArraySize init update small key = some (next, (map.lookup key).getD init) ∧
      Represents kArraySize next (SmallMapRequest.bracketed init map key update) := by
  cases represents with
  | array elements map fits lists =>
    have nothing : ∀ element ∈ elements.drop elements.length, element.1 ≠ key := by
      intro element member
      rw [List.drop_length] at member
      cases member
    rcases Slots.findBackwards_finds kArraySize key elements.length (Nat.le_refl _) nothing with ⟨found, searched, finds⟩
    have notNegative : ¬ ((elements.length : Int) < 0) := by omega
    simp only [SmallMap.bracket, if_neg notNegative, Int.toNat_natCast, searched, Option.bind_some]
    cases found with
    | some i =>
      rcases finds with ⟨old, there⟩
      have lookup := (lists.same key old).mp (List.mem_of_getElem? there)
      rcases exists_between there with ⟨front, back, rfl, rfl⟩
      have inside : front.length < (front ++ (key, old) :: back).length := (List.getElem?_eq_some_iff.mp there).1
      have replaced := (lists.perm List.perm_middle.symm).replace (update old)
      have count : (front ++ (key, old) :: back).length = (front ++ (key, update old) :: back).length := by
        simp only [List.length_append, List.length_cons]
      simp only [Slots.get_slotsOf there, Option.map_some, Slots.set_slotsOf inside, set_between, lookup, Option.getD_some]
      refine ⟨_, rfl, ?_⟩
      rw [SmallMapRequest.bracketed, lookup, Option.getD_some]
      simp only [count] at fits ⊢
      exact .array _ _ fits (replaced.perm List.perm_middle)
    | none =>
      have none_ := lists.lookup_eq_none_iff.mpr finds
      by_cases full : elements.length = kArraySize
      · rcases convertToRealMap_same lists full with ⟨normal, converted, same⟩
        have after := bracketInMap kArraySize same init update key
        simp only [full, if_true, converted, Option.bind_some, after.1, Option.map_some]
        exact ⟨_, rfl, after.2⟩
      · have room : elements.length < kArraySize := by omega
        have after := (lists.cons none_ (update init)).perm (List.perm_append_singleton (key, update init) elements)
        have size : ((elements.length : Int) + 1) = ((elements ++ [(key, update init)]).length : Nat) := by
          rw [List.length_append, List.length_singleton]
          rfl
        have inside : elements.length < (elements ++ [(key, init)]).length := by
          rw [List.length_append]
          exact Nat.lt_succ_self _
        simp only
        rw [if_neg (by omega), Slots.init_slotsOf room, Option.map_some, Slots.set_slotsOf inside, set_between, none_,
          Option.getD_none, size]
        refine ⟨_, rfl, ?_⟩
        rw [SmallMapRequest.bracketed, none_, Option.getD_none]
        refine .array _ _ ?_ after
        rw [List.length_append]
        exact room
  | map normal map same =>
    have after := bracketInMap kArraySize same init update key
    have negative : ¬ (0 : Int) ≤ -1 := by decide
    simp only [SmallMap.bracket, if_neg negative, after.1, Option.map_some]
    exact ⟨_, rfl, after.2⟩

/-- What `erase` makes of the array: the last element moves to where the erased one was. -/
def swapLast (elements : List (K × V)) (i : Nat) : List (K × V) :=
  match elements.getLast? with
  | some last => (elements.set i last).dropLast
  | none => []

omit [DecidableEq K] in
theorem swapLast_between (front back : List (K × V)) (element : K × V) :
    (swapLast (front ++ element :: back) front.length).Perm (front ++ back) := by
  rcases List.eq_nil_or_concat' back with rfl | ⟨middle, last, rfl⟩
  · rw [swapLast, List.getLast?_concat]
    simp only [set_between, List.dropLast_concat, List.append_nil, List.Perm.refl]
  · rw [swapLast, ← List.cons_append, ← List.append_assoc, List.getLast?_concat]
    simp only [List.append_assoc, List.cons_append, set_between]
    rw [← List.cons_append, ← List.append_assoc, List.dropLast_concat]
    exact (List.perm_append_singleton last middle).symm.append_left front

omit [DecidableEq K] in
theorem elements_array : SmallMap.elements ⟨elements.length, .array (slotsOf kArraySize elements)⟩ = elements := by
  simp only [SmallMap.elements, Int.toNat_natCast, slotsOf]
  rw [List.take_left' (List.length_map _)]
  simp only [List.reduceOption, List.filterMap_map, Function.comp_def, id_eq, List.filterMap_some]

theorem eraseAt_between (front back : List (K × V)) (element : K × V)
    (fits : (front ++ element :: back).length ≤ kArraySize) :
    SmallMap.eraseAt ⟨(front ++ element :: back).length, .array (slotsOf kArraySize (front ++ element :: back))⟩
        (.array front.length : SmallMapIterator K) =
      some ⟨(swapLast (front ++ element :: back) front.length).length,
        .array (slotsOf kArraySize (swapLast (front ++ element :: back) front.length))⟩ := by
  have notNegative : ¬ (((front ++ element :: back).length : Int) < 0) := by omega
  simp only [SmallMap.eraseAt, if_neg notNegative]
  rcases List.eq_nil_or_concat' back with rfl | ⟨middle, last, rfl⟩
  · have result : swapLast (front ++ [element]) front.length = front := by
      rw [swapLast, List.getLast?_concat]
      simp only [set_between, List.dropLast_concat]
    rw [List.length_append, List.length_singleton] at fits
    have size : ((front ++ [element]).length : Int) - 1 = front.length := by
      rw [List.length_append, List.length_singleton]
      omega
    rw [Slots.destroy_last fits, Option.bind_some, size, result, if_neg (not_not.mpr rfl)]
  · have result : swapLast (front ++ element :: (middle ++ [last])) front.length = front ++ last :: middle := by
      rw [swapLast, ← List.cons_append, ← List.append_assoc, List.getLast?_concat]
      simp only [List.append_assoc, List.cons_append, set_between]
      rw [← List.cons_append, ← List.append_assoc, List.dropLast_concat]
    have length : (front ++ element :: (middle ++ [last])).length = (front ++ last :: middle).length + 1 := by
      simp only [List.length_append, List.length_cons, List.length_nil]
      omega
    have size : ((front ++ element :: (middle ++ [last])).length : Int) - 1 = (front ++ last :: middle).length := by
      rw [length]
      omega
    have other : (front.length : Int) ≠ (front ++ last :: middle).length := by
      simp only [List.length_append, List.length_cons]
      omega
    -- The slots before the erased element, between it and the last, and behind the last.
    have before : slotsOf kArraySize (front ++ element :: (middle ++ [last])) =
        front.map some ++ some element :: (middle.map some ++ some last ::
          List.replicate (kArraySize - (front ++ element :: (middle ++ [last])).length) none) := by
      simp only [slotsOf, List.map_append, List.map_cons, List.map_nil, List.append_assoc, List.cons_append, List.nil_append]
    have after : slotsOf kArraySize (front ++ last :: middle) =
        front.map some ++ some last :: (middle.map some ++ none ::
          List.replicate (kArraySize - (front ++ element :: (middle ++ [last])).length) none) := by
      have count : kArraySize - (front ++ last :: middle).length =
          kArraySize - (front ++ element :: (middle ++ [last])).length + 1 := by omega
      rw [slotsOf, count, List.replicate_succ]
      simp only [List.map_append, List.map_cons, List.append_assoc, List.cons_append]
    simp only [result, before, after, size, if_pos other, Int.toNat_natCast]
    generalize List.replicate (kArraySize - (front ++ element :: (middle ++ [last])).length) (none : Option (K × V)) = rest
    have destroyed := @Slots.destroy_between K V (front.map some) (middle.map some ++ some last :: rest) element
    have initialised := @Slots.init_between K V (front.map some) (middle.map some ++ some last :: rest) last
    have moved := @Slots.get_between K V (front.map some ++ none :: middle.map some) rest last
    have emptied := @Slots.destroy_between K V (front.map some ++ some last :: middle.map some) rest last
    simp only [List.length_append, List.length_cons, List.length_map, List.append_assoc, List.cons_append] at *
    rw [destroyed, Option.bind_some, moved, Option.bind_some, initialised, Option.bind_some, emptied, Option.map_some]

theorem eraseAt_represents (represents : Represents kArraySize small map) {position : SmallMapIterator K} {element : K × V}
    (there : small.elementAt position = some element) :
    ∃ next, small.eraseAt position = some next ∧ Represents kArraySize next (map.erase element.1) ∧
      ∀ i, position = .array i → next.elements = swapLast small.elements i := by
  cases represents with
  | array elements map fits lists =>
    cases position with
    | array i =>
      rw [elementAt_array] at there
      rcases exists_between there with ⟨front, back, rfl, rfl⟩
      refine ⟨_, eraseAt_between front back element fits, ?_, ?_⟩
      · have others := (lists.perm List.perm_middle.symm).tail.perm (swapLast_between front back element)
        refine .array _ _ ?_ others
        rw [(swapLast_between front back element).length_eq]
        simp only [List.length_append, List.length_cons] at fits ⊢
        omega
      · intro i same
        cases same
        rw [elements_array, elements_array]
    | hash key =>
      cases key <;> cases there
  | map normal map same =>
    cases position with
    | array i => cases there
    | hash key =>
      cases key with
      | none => cases there
      | some key =>
        have negative : ¬ (0 : Int) ≤ -1 := by decide
        simp only [SmallMap.elementAt, Option.map_eq_some_iff] at there
        rcases there with ⟨value, there, rfl⟩
        have present : key ∈ normal := by
          rw [← AList.lookup_isSome, there]
          rfl
        have guard_ : ¬ ((0 : Int) ≤ -1 ∨ key ∉ normal) := not_or.mpr ⟨negative, not_not.mpr present⟩
        simp only [SmallMap.eraseAt, if_neg guard_]
        refine ⟨_, rfl, .map _ _ ?_, ?_⟩
        · intro other
          rw [lookup_erase]
          by_cases here : other = key
          · subst here
            rw [AList.lookup_erase, if_pos rfl]
          · rw [AList.lookup_erase_ne here, if_neg here, same]
        · intro i same
          cases same

theorem erase_represents (represents : Represents kArraySize small map) (key : K) :
    ∃ next, small.erase key = some (next, if key ∈ map then 1 else 0) ∧ Represents kArraySize next (map.erase key) := by
  rcases find_represents represents key with ⟨position, found, element, end_⟩
  rw [SmallMap.erase, found, Option.bind_some]
  by_cases there : key ∈ map
  · rw [if_neg (mt end_.mp (not_not.mpr there)), if_pos there]
    rw [← Finmap.lookup_isSome, Option.isSome_iff_exists] at there
    rcases there with ⟨value, there⟩
    rw [SmallMapRequest.element, there, Option.map_some] at element
    rcases eraseAt_represents represents element with ⟨next, erased, represents, -⟩
    exact ⟨next, by rw [erased, Option.map_some], represents⟩
  · rw [if_pos (end_.mpr there), if_neg there, erase_of_not_mem there]
    exact ⟨small, rfl, represents⟩

theorem new_represents : Represents kArraySize (SmallMap.new kArraySize : SmallMap K V) ∅ :=
  .array [] ∅ (Nat.zero_le _) Lists.empty

section
variable (represents : Represents kArraySize small map)
include represents

theorem destroy_represents :
    SmallMap.destroy kArraySize small = some (SmallMap.raw kArraySize) := by
  cases represents with
  | array elements map fits lists =>
    simp only [SmallMap.destroy, Int.natCast_nonneg, if_true, Int.toNat_natCast, Slots.destroyFrom_slotsOf fits, Option.map_some]
    rfl
  | map normal map same => rfl

theorem clear_represents :
    ∃ next, SmallMap.clear kArraySize small = some next ∧ Represents kArraySize next ∅ := by
  rw [SmallMap.clear, destroy_represents represents, Option.map_some]
  exact ⟨_, rfl, new_represents⟩

theorem initFrom_represents :
    SmallMap.initFrom (SmallMap.raw kArraySize) small = some small := by
  cases represents with
  | array elements map fits lists =>
    simp only [SmallMap.initFrom, SmallMap.raw, Int.natCast_nonneg, if_true, Int.toNat_natCast, Slots.copyFrom_slotsOf fits,
      Option.map_some]
  | map normal map same => rfl

theorem assign_represents {src : SmallMap K V} {srcMap : Reference K V}
    (srcRepresents : Represents kArraySize src srcMap) : SmallMap.assign kArraySize small src = some src := by
  rw [SmallMap.assign, destroy_represents represents, Option.bind_some, initFrom_represents srcRepresents]

end

end

/-! ### Runs on several maps -/

/-- A map and the finite map that it refines show the same elements, in the same number. -/
structure LooksLike (small : SmallMap K V) (map : Reference K V) : Prop where
  lists : Lists small.elements map
  size : small.elementCount = map.keys.card
  empty : small.empty = decide (map.keys.card = 0)

/-- The position of the map that a call is about. -/
def SmallMapCall.self : SmallMapCall K V → Nat
  | .insert self _ _ | .bracket self _ _ | .find self _ | .eraseAt self _ | .erase self _ | .clear self | .assign self _ => self
  | .copy src => src

/-- In every state of a run the maps look like the finite maps, and every call whose iterator points to an element of its
map has the result that the finite maps say; `erase` in an array moves the last element. -/
def SmallMap.RefinesAlong (kArraySize : Nat) (init : V) (maps : List (SmallMap K V)) (references : List (Reference K V)) :
    List (SmallMapCall K V) → Prop
  | [] => List.Forall₂ LooksLike maps references
  | call :: calls => List.Forall₂ LooksLike maps references ∧
      ∀ request after, SmallMap.request maps call = some request → request.after init references = some after →
        ∃ next result, SmallMap.exec kArraySize init maps call = some (next, result) ∧
          SmallMap.observe next call.self result = request.answer init references ∧
          (∀ self i small small', call = .eraseAt self (.array i) → maps[self]? = some small → next[self]? = some small' →
            small'.elements = swapLast small.elements i) ∧
          SmallMap.RefinesAlong kArraySize init next after calls

section

variable {kArraySize : Nat} {small : SmallMap K V} {map : Reference K V} {init : V}

theorem Represents.looksLike (represents : Represents kArraySize small map) : LooksLike small map := by
  cases represents with
  | array elements map fits lists =>
    refine ⟨by rw [elements_array]; exact lists, lists.card.symm, ?_⟩
    rw [lists.card]
    simp only [SmallMap.empty, Int.natCast_eq_zero]
  | map normal map same =>
    have lists : Lists (normal.entries.map fun entry => (entry.1, entry.2)) map := by
      constructor
      · rw [List.map_map]
        exact normal.nodupKeys
      · intro key value
        rw [← same, List.mem_map]
        constructor
        · intro listed
          rcases listed with ⟨entry, member, equal⟩
          cases equal
          exact AList.mem_lookup_iff.mpr member
        · intro found
          exact ⟨⟨key, value⟩, AList.mem_lookup_iff.mp found, rfl⟩
    have count := lists.card
    rw [List.length_map] at count
    refine ⟨lists, count.symm, ?_⟩
    rw [count]
    change normal.entries.isEmpty = decide (normal.entries.length = 0)
    cases normal.entries <;> rfl

variable {maps : List (SmallMap K V)} {references : List (Reference K V)}

theorem step_at {self : Nat} (agree : List.Forall₂ (Represents kArraySize) maps references)
    (there : references[self]? = some map) {next : SmallMap K V} {nextMap : Reference K V}
    (represents : Represents kArraySize next nextMap) :
    List.Forall₂ (Represents kArraySize) (maps.set self next) (references.set self nextMap) ∧
      (maps.set self next)[self]? = some next := by
  rcases getElem?_related agree there with ⟨small, here, -⟩
  refine ⟨set_related agree self represents, ?_⟩
  rw [List.getElem?_set_self (List.getElem?_eq_some_iff.mp here).1]

/-- Every request is answered as the finite maps answer it, and the maps go on to represent them. -/
theorem exec_represents {after : List (Reference K V)} (agree : List.Forall₂ (Represents kArraySize) maps references)
    {call : SmallMapCall K V} {request : SmallMapRequest K V} (asked : SmallMap.request maps call = some request)
    (admitted : request.after init references = some after) :
    ∃ next result, SmallMap.exec kArraySize init maps call = some (next, result) ∧
      SmallMap.observe next call.self result = request.answer init references ∧
      (∀ self i small small', call = .eraseAt self (.array i) → maps[self]? = some small → next[self]? = some small' →
        small'.elements = swapLast small.elements i) ∧
      List.Forall₂ (Represents kArraySize) next after := by
  have getD : ∀ {self : Nat} {map : Reference K V}, references[self]? = some map → references.getD self ∅ = map := by
    intro self map there
    rw [List.getD_eq_getElem?_getD, there, Option.getD_some]
  have own {self : Nat} {become : Reference K V → List (Reference K V)}
      (admitted : references[self]?.map become = some after) : ∃ map small, references[self]? = some map ∧
        after = become map ∧ maps[self]? = some small ∧ Represents kArraySize small map := by
    obtain ⟨map, there, rfl⟩ := Option.map_eq_some_iff.mp admitted
    obtain ⟨small, here, represents⟩ := getElem?_related agree there
    exact ⟨map, small, there, rfl, here, represents⟩
  cases call with
  | insert self key value =>
    cases asked
    obtain ⟨map, small, there, rfl, here, represents⟩ := own admitted
    rcases insert_represents represents key value with ⟨next, position, isNew, inserted, represents, element, isNew_⟩
    have step := step_at agree there represents
    refine ⟨maps.set self next, .inserted position isNew, ?_, ?_, (fun _ _ _ _ other => by cases other), step.1⟩
    · rw [SmallMap.exec, here, Option.bind_some, inserted, Option.map_some]
    · rw [SmallMap.observe, SmallMapCall.self, step.2, Option.bind_some, element, isNew_]
      simp only [SmallMapRequest.answer, getD there]
  | bracket self key update =>
    cases asked
    obtain ⟨map, small, there, rfl, here, represents⟩ := own admitted
    rcases bracket_represents represents init update key with ⟨next, bracketed, represents⟩
    have step := step_at agree there represents
    refine ⟨maps.set self next, .value ((map.lookup key).getD init), ?_, ?_, (fun _ _ _ _ other => by cases other), step.1⟩
    · rw [SmallMap.exec, here, Option.bind_some, bracketed, Option.map_some]
    · rw [SmallMap.observe, SmallMapRequest.answer, getD there]
  | find self key =>
    cases asked
    obtain ⟨map, small, there, rfl, here, represents⟩ := own admitted
    rcases find_represents represents key with ⟨position, found, element, -⟩
    refine ⟨maps, .iterator position, ?_, ?_, (fun _ _ _ _ other => by cases other), agree⟩
    · rw [SmallMap.exec, here, Option.bind_some, found, Option.map_some]
    · rw [SmallMap.observe, SmallMapCall.self, here, Option.bind_some, element, SmallMapRequest.answer, getD there]
  | eraseAt self position =>
    rw [SmallMap.request, Option.bind_eq_some_iff] at asked
    rcases asked with ⟨small, here, asked⟩
    rw [Option.map_eq_some_iff] at asked
    rcases asked with ⟨element, pointed, rfl⟩
    obtain ⟨map, other, there, rfl, here', represents⟩ := own admitted
    rw [here, Option.some.injEq] at here'
    subst here'
    rcases eraseAt_represents represents pointed with ⟨next, erased, represents, swapped⟩
    have step := step_at agree there represents
    refine ⟨maps.set self next, .done, ?_, rfl, ?_, step.1⟩
    · rw [SmallMap.exec, here, Option.bind_some, erased, Option.map_some]
    · intro self' i before small' same before_ after_
      cases same
      rw [here, Option.some.injEq] at before_
      rw [step.2, Option.some.injEq] at after_
      rw [← before_, ← after_]
      exact swapped i rfl
  | erase self key =>
    cases asked
    obtain ⟨map, small, there, rfl, here, represents⟩ := own admitted
    rcases erase_represents represents key with ⟨next, erased, represents⟩
    have step := step_at agree there represents
    refine ⟨maps.set self next, .count (if key ∈ map then 1 else 0), ?_, ?_, (fun _ _ _ _ other => by cases other), step.1⟩
    · rw [SmallMap.exec, here, Option.bind_some, erased, Option.map_some]
    · rw [SmallMap.observe, SmallMapRequest.answer, getD there]
  | clear self =>
    cases asked
    obtain ⟨map, small, there, rfl, here, represents⟩ := own admitted
    rcases clear_represents represents with ⟨next, cleared, represents⟩
    have step := step_at agree there represents
    refine ⟨maps.set self next, .done, ?_, rfl, (fun _ _ _ _ other => by cases other), step.1⟩
    · rw [SmallMap.exec, here, Option.bind_some, cleared, Option.map_some]
  | copy src =>
    cases asked
    obtain ⟨map, small, there, rfl, here, represents⟩ := own admitted
    refine ⟨maps ++ [small], .done, ?_, rfl, (fun _ _ _ _ other => by cases other), concat_related agree represents⟩
    · rw [SmallMap.exec, here, Option.bind_some, SmallMap.copy, initFrom_represents represents, Option.map_some]
  | assign self src =>
    cases asked
    rw [SmallMapRequest.after, Option.bind_eq_some_iff] at admitted
    rcases admitted with ⟨map, there, admitted⟩
    rw [Option.map_eq_some_iff] at admitted
    rcases admitted with ⟨srcMap, srcThere, rfl⟩
    rcases getElem?_related agree there with ⟨small, here, represents⟩
    rcases getElem?_related agree srcThere with ⟨from_, srcHere, srcRepresents⟩
    have step := step_at agree there srcRepresents
    refine ⟨maps.set self from_, .done, ?_, rfl, (fun _ _ _ _ other => by cases other), step.1⟩
    · rw [SmallMap.exec, here, Option.bind_some, srcHere, Option.bind_some]
      by_cases same : self = src
      · subst same
        rcases List.getElem?_eq_some_iff.mp srcHere with ⟨inside, rfl⟩
        rw [if_pos rfl, List.set_getElem_self]
      · rw [if_neg same, assign_represents represents srcRepresents, Option.map_some]

theorem refinesAlong (calls : List (SmallMapCall K V)) (agree : List.Forall₂ (Represents kArraySize) maps references) :
    SmallMap.RefinesAlong kArraySize init maps references calls := by
  induction calls generalizing maps references with
  | nil => exact agree.imp fun _ _ represents => represents.looksLike
  | cons call calls inductive_hypothesis =>
    refine ⟨agree.imp fun _ _ represents => represents.looksLike, ?_⟩
    intro request after asked admitted
    rcases exec_represents agree asked admitted with ⟨next, result, executed, answer, swapped, agree'⟩
    exact ⟨next, result, executed, answer, swapped, inductive_hypothesis agree'⟩

end

/-- Maps of any array size, new at first, are the finite maps over all calls. -/
theorem SmallMap.smallMap_refines (kArraySize : Nat) (init : V) (count : Nat) (calls : List (SmallMapCall K V)) :
    SmallMap.RefinesAlong kArraySize init (List.replicate count (SmallMap.new kArraySize)) (List.replicate count ∅) calls := by
  apply refinesAlong
  induction count with
  | zero => exact .nil
  | succ count inductive_hypothesis => exact .cons new_represents inductive_hypothesis

end Libchrome.Base.Containers
