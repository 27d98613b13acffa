import Mathlib.Data.List.AList

/-! `SmallMap` (`small_map.h`). A step that C++ leaves undefined, such as reading a slot without an element, is none. -/

namespace Libchrome.Base.Containers

/-- `ManualConstructor<value_type>`s: which of the slots hold an element. -/
abbrev Slots (K V : Type) := List (Option (K × V))

namespace Slots

variable {K V : Type}

/-- `Init`, of a slot that is free. -/
def init (slots : Slots K V) (i : Nat) (value : K × V) : Option (Slots K V) :=
  match slots[i]? with
  | some none => some (slots.set i (some value))
  | _ => none

/-- `Destroy`, of a slot that holds an element. -/
def destroy (slots : Slots K V) (i : Nat) : Option (Slots K V) :=
  match slots[i]? with
  | some (some _) => some (slots.set i none)
  | _ => none

/-- The element that a slot holds. -/
def get (slots : Slots K V) (i : Nat) : Option (K × V) := slots[i]?.join

/-- `Destroy` of the slots below `size`, from `i` on. -/
def destroyFrom : Nat → Nat → Slots K V → Option (Slots K V)
  | 0, _, slots => some slots
  | count + 1, i, slots => (slots.destroy i).bind (destroyFrom count (i + 1))

/-- `Init` of so many slots from `i` on with the elements of other slots. -/
def copyFrom (src : Slots K V) : Nat → Nat → Slots K V → Option (Slots K V)
  | 0, _, slots => some slots
  | count + 1, i, slots => (src.get i).bind fun value => (slots.init i value).bind (copyFrom src count (i + 1))

/-- The elements of so many slots from `i` on, with the slots once they are destroyed. -/
def takeFrom : Nat → Nat → Slots K V → Option (List (K × V) × Slots K V)
  | 0, _, slots => some ([], slots)
  | count + 1, i, slots =>
    (slots.get i).bind fun value => (slots.destroy i).bind fun slots =>
      (takeFrom count (i + 1) slots).map fun taken => (value :: taken.1, taken.2)

variable [DecidableEq K]

/-- The loop of `find` over so many slots from `i` on. -/
def findFrom (slots : Slots K V) (key : K) : Nat → Nat → Option (Option Nat)
  | 0, _ => some none
  | count + 1, i =>
    (slots.get i).bind fun value => if value.1 = key then some (some i) else findFrom slots key count (i + 1)

/-- The loop of `operator[]` over so many slots, backwards. -/
def findBackwards (slots : Slots K V) (key : K) : Nat → Option (Option Nat)
  | 0 => some none
  | i + 1 => (slots.get i).bind fun value => if value.1 = key then some (some i) else findBackwards slots key i

end Slots

/-- The wrapped map, with the operations that `SmallMap` uses. -/
abbrev NormalMap (K V : Type) := AList fun _ : K => V

namespace NormalMap

variable {K V : Type} [DecidableEq K]

/-- `insert`, which keeps an element that is there, and whether it inserted. -/
def insert (map : NormalMap K V) (value : K × V) : NormalMap K V × Bool :=
  if value.1 ∈ map then (map, false) else (AList.insert value.1 value.2 map, true)

/-- `operator[]`, where the element it makes is `init`. -/
def bracket (map : NormalMap K V) (key : K) (init : V) : NormalMap K V := (map.insert (key, init)).1

end NormalMap

/-- The union of the array and the map. -/
inductive Storage (K V : Type) where
  | array (slots : Slots K V)
  | map (map : NormalMap K V)

structure SmallMap (K V : Type) where
  /-- Negative where the map is used. -/
  size : Int
  storage : Storage K V

/-- An iterator: to a slot, or to the element of a key in the map, or to the map's end. -/
inductive SmallMapIterator (K : Type) where
  | array (i : Nat)
  | hash (key : Option K)
  deriving DecidableEq

namespace SmallMap

variable {K V : Type} (kArraySize : Nat)

/-- The storage in which nothing is constructed. -/
def raw : Storage K V := .array (List.replicate kArraySize none)

def new : SmallMap K V := ⟨0, raw kArraySize⟩

/-- `Destroy`. -/
def destroy (small : SmallMap K V) : Option (Storage K V) :=
  match small.storage with
  | .array slots => if 0 ≤ small.size then (slots.destroyFrom small.size.toNat 0).map .array else none
  | .map _ => if 0 ≤ small.size then none else some (raw kArraySize)

/-- `InitFrom`, in storage where nothing is constructed. -/
def initFrom (storage : Storage K V) (src : SmallMap K V) : Option (SmallMap K V) :=
  match src.storage, storage with
  | .array from_, .array slots =>
    if 0 ≤ src.size then (from_.copyFrom src.size.toNat 0 slots).map fun slots => ⟨src.size, .array slots⟩ else none
  | .map map, .array _ => if 0 ≤ src.size then none else some ⟨src.size, .map map⟩
  | _, _ => none

/-- The copy constructor. -/
def copy (src : SmallMap K V) : Option (SmallMap K V) := initFrom (raw kArraySize) src

/-- `operator=` of another map. -/
def assign (small src : SmallMap K V) : Option (SmallMap K V) :=
  (destroy kArraySize small).bind fun storage => initFrom storage src

def clear (small : SmallMap K V) : Option (SmallMap K V) := (destroy kArraySize small).map fun storage => ⟨0, storage⟩

variable [DecidableEq K]

/-- `ConvertToRealMap`. -/
def convertToRealMap (slots : Slots K V) : Option (NormalMap K V) :=
  (slots.takeFrom kArraySize 0).map fun taken => taken.1.foldl (fun map value => (map.insert value).1) ∅

/-- `end`. -/
def end_ (small : SmallMap K V) : SmallMapIterator K := if 0 ≤ small.size then .array small.size.toNat else .hash none

def find (small : SmallMap K V) (key : K) : Option (SmallMapIterator K) :=
  match small.storage with
  | .array slots =>
    if 0 ≤ small.size then (slots.findFrom key small.size.toNat 0).map fun i => .array (i.getD small.size.toNat) else none
  | .map map => if 0 ≤ small.size then none else some (.hash (if key ∈ map then some key else none))

/-- `operator[]`, and what is done with the reference that it returns; `init` is `data_type()`. -/
def bracket (init : V) (update : V → V) (small : SmallMap K V) (key : K) : Option (SmallMap K V × V) :=
  let inMap (map : NormalMap K V) : Option (SmallMap K V × V) :=
    let map := map.bracket key init
    (map.lookup key).map fun value => (⟨-1, .map (AList.insert key (update value) map)⟩, value)
  match small.storage with
  | .array slots =>
    if small.size < 0 then none
    else
      (slots.findBackwards key small.size.toNat).bind fun found =>
        match found with
        | some i => (slots.get i).map fun value =>
            (⟨small.size, .array (slots.set i (some (value.1, update value.2)))⟩, value.2)
        | none =>
          if small.size = kArraySize then (convertToRealMap kArraySize slots).bind inMap
          else
            (slots.init small.size.toNat (key, init)).map fun slots =>
              (⟨small.size + 1, .array (slots.set small.size.toNat (some (key, update init)))⟩, init)
  | .map map => if 0 ≤ small.size then none else inMap map

/-- `insert`: the iterator to the element of the key, and whether it is new. -/
def insert (small : SmallMap K V) (value : K × V) : Option (SmallMap K V × SmallMapIterator K × Bool) :=
  let inMap (map : NormalMap K V) : SmallMap K V × SmallMapIterator K × Bool :=
    let inserted := map.insert value
    (⟨-1, .map inserted.1⟩, .hash (some value.1), inserted.2)
  match small.storage with
  | .array slots =>
    if small.size < 0 then none
    else
      (slots.findFrom value.1 small.size.toNat 0).bind fun found =>
        match found with
        | some i => some (small, .array i, false)
        | none =>
          if small.size = kArraySize then (convertToRealMap kArraySize slots).map inMap
          else
            (slots.init small.size.toNat value).map fun slots =>
              (⟨small.size + 1, .array slots⟩, .array small.size.toNat, true)
  | .map map => if 0 ≤ small.size then none else some (inMap map)

/-- `erase` at an iterator. -/
def eraseAt (small : SmallMap K V) (position : SmallMapIterator K) : Option (SmallMap K V) :=
  match small.storage, position with
  | .array slots, .array i =>
    if small.size < 0 then none
    else
      (slots.destroy i).bind fun slots =>
        let size := small.size - 1
        if (i : Int) ≠ size then
          (slots.get size.toNat).bind fun last => (slots.init i last).bind fun slots =>
            (slots.destroy size.toNat).map fun slots => ⟨size, .array slots⟩
        else some ⟨size, .array slots⟩
  | .map map, .hash (some key) =>
    if 0 ≤ small.size ∨ key ∉ map then none else some ⟨small.size, .map (map.erase key)⟩
  | _, _ => none

/-- `erase` of a key. -/
def erase (small : SmallMap K V) (key : K) : Option (SmallMap K V × Nat) :=
  (small.find key).bind fun iter =>
    if iter = small.end_ then some (small, 0) else (small.eraseAt iter).map fun small => (small, 1)

/-- `size()`. -/
def elementCount (small : SmallMap K V) : Nat :=
  match small.storage with
  | .array _ => small.size.toNat
  | .map map => map.entries.length

def empty (small : SmallMap K V) : Bool :=
  match small.storage with
  | .array _ => small.size = 0
  | .map map => map.entries.isEmpty

/-- The elements between `begin()` and `end()`. -/
def elements (small : SmallMap K V) : List (K × V) :=
  match small.storage with
  | .array slots => (slots.take small.size.toNat).reduceOption
  | .map map => map.entries.map fun entry => (entry.1, entry.2)

end SmallMap

/-- What a client may ask of its maps, which it names by their positions; `operator[]` comes with what is done with the
reference that it returns. -/
inductive SmallMapCall (K V : Type) where
  | insert (self : Nat) (key : K) (value : V)
  | bracket (self : Nat) (key : K) (update : V → V)
  | find (self : Nat) (key : K)
  | eraseAt (self : Nat) (position : SmallMapIterator K)
  | erase (self : Nat) (key : K)
  | clear (self : Nat)
  | copy (src : Nat)
  | assign (self src : Nat)

inductive SmallMapResult (K V : Type) where
  | done
  | iterator (position : SmallMapIterator K)
  | inserted (position : SmallMapIterator K) (isNew : Bool)
  | value (value : V)
  | count (count : Nat)

/-- One call on the maps that there are; `init` is `data_type()`. -/
def SmallMap.exec {K V : Type} [DecidableEq K] (kArraySize : Nat) (init : V) (maps : List (SmallMap K V)) :
    SmallMapCall K V → Option (List (SmallMap K V) × SmallMapResult K V)
  | .insert self key value => maps[self]?.bind fun small => (small.insert kArraySize (key, value)).map fun result =>
      (maps.set self result.1, .inserted result.2.1 result.2.2)
  | .bracket self key update => maps[self]?.bind fun small =>
      (SmallMap.bracket kArraySize init update small key).map fun result => (maps.set self result.1, .value result.2)
  | .find self key => maps[self]?.bind fun small => (small.find key).map fun position => (maps, .iterator position)
  | .eraseAt self position => maps[self]?.bind fun small => (small.eraseAt position).map fun small =>
      (maps.set self small, .done)
  | .erase self key => maps[self]?.bind fun small => (small.erase key).map fun result =>
      (maps.set self result.1, .count result.2)
  | .clear self => maps[self]?.bind fun small => (small.clear kArraySize).map fun small => (maps.set self small, .done)
  | .copy src => maps[src]?.bind fun src => (src.copy kArraySize).map fun small => (maps ++ [small], .done)
  | .assign self src => maps[self]?.bind fun small => maps[src]?.bind fun from_ =>
      if self = src then some (maps, .done)
      else (small.assign kArraySize from_).map fun small => (maps.set self small, .done)

/-! The array of a `SmallMap`: its elements fill the first slots, and each loop over them goes through. -/

variable {K V : Type} (kArraySize : Nat)

/-- The slots of an array whose first ones hold these elements. -/
def slotsOf (elements : List (K × V)) : Slots K V :=
  elements.map some ++ List.replicate (kArraySize - elements.length) none

namespace Slots

variable {kArraySize} {front back : Slots K V} {elements : List (K × V)} {value : K × V}

theorem get_between : get (front ++ some value :: back) front.length = some value := by
  rw [get, List.getElem?_append_right (Nat.le_refl _), Nat.sub_self]
  rfl

theorem destroy_between : destroy (front ++ some value :: back) front.length = some (front ++ none :: back) := by
  rw [destroy, List.getElem?_append_right (Nat.le_refl _), Nat.sub_self]
  simp only [List.getElem?_cons_zero, List.set_append_right _ _ (Nat.le_refl _), Nat.sub_self, List.set_cons_zero]

theorem init_between : init (front ++ none :: back) front.length value = some (front ++ some value :: back) := by
  rw [init, List.getElem?_append_right (Nat.le_refl _), Nat.sub_self]
  simp only [List.getElem?_cons_zero, List.set_append_right _ _ (Nat.le_refl _), Nat.sub_self, List.set_cons_zero]

theorem destroyFrom_between (elements : List (K × V)) (front back : Slots K V) :
    destroyFrom elements.length front.length (front ++ elements.map some ++ back) =
      some (front ++ List.replicate elements.length none ++ back) := by
  induction elements generalizing front with
  | nil => rfl
  | cons value rest inductive_hypothesis =>
    simp only [List.map_cons, List.length_cons, List.append_assoc, List.cons_append, destroyFrom, destroy_between,
      Option.bind_some, List.replicate_succ]
    have others := inductive_hypothesis (front ++ [none])
    simpa only [List.append_assoc, List.cons_append, List.nil_append, List.length_append, List.length_singleton] using others

theorem takeFrom_between (elements : List (K × V)) (front back : Slots K V) :
    takeFrom elements.length front.length (front ++ elements.map some ++ back) =
      some (elements, front ++ List.replicate elements.length none ++ back) := by
  induction elements generalizing front with
  | nil => rfl
  | cons value rest inductive_hypothesis =>
    simp only [List.map_cons, List.length_cons, List.append_assoc, List.cons_append, takeFrom, destroy_between, get_between,
      Option.bind_some, List.replicate_succ]
    have others := inductive_hypothesis (front ++ [none])
    simp only [List.append_assoc, List.cons_append, List.nil_append, List.length_append, List.length_singleton] at others
    rw [others, Option.map_some]

theorem copyFrom_between (elements : List (K × V)) (front src back rest : Slots K V) (same : src.length = front.length) :
    copyFrom (src ++ elements.map some ++ rest) elements.length front.length
      (front ++ List.replicate elements.length none ++ back) = some (front ++ elements.map some ++ back) := by
  induction elements generalizing front src with
  | nil => rfl
  | cons value others inductive_hypothesis =>
    have there : get (src ++ some value :: (others.map some ++ rest)) front.length = some value := by
      rw [← same]
      exact get_between
    simp only [List.map_cons, List.length_cons, List.append_assoc, List.cons_append, copyFrom, there, init_between,
      Option.bind_some, List.replicate_succ]
    have copied := inductive_hypothesis (front ++ [some value]) (src ++ [some value])
      (by rw [List.length_append, List.length_append, same])
    simpa only [List.append_assoc, List.cons_append, List.nil_append, List.length_append, List.length_singleton] using copied

variable {kArraySize : Nat}

theorem get_slotsOf {i : Nat} (value_ : elements[i]? = some value) : get (slotsOf kArraySize elements) i = some value := by
  rcases List.getElem?_eq_some_iff.mp value_ with ⟨inside, rfl⟩
  rw [get, slotsOf, List.getElem?_append_left (by rw [List.length_map]; exact inside), List.getElem?_map, value_]
  rfl

theorem destroyFrom_slotsOf (fits : elements.length ≤ kArraySize) :
    destroyFrom elements.length 0 (slotsOf kArraySize elements) = some (List.replicate kArraySize none) := by
  have destroyed := destroyFrom_between elements [] (List.replicate (kArraySize - elements.length) none)
  rw [List.nil_append, List.nil_append, List.length_nil, ← List.replicate_add, Nat.add_sub_cancel' fits] at destroyed
  exact destroyed

theorem takeFrom_slotsOf (full : elements.length = kArraySize) :
    (takeFrom kArraySize 0 (slotsOf kArraySize elements)).map Prod.fst = some elements := by
  have taken := takeFrom_between elements [] (List.replicate (kArraySize - elements.length) none)
  rw [List.nil_append, List.nil_append, List.length_nil, full] at taken
  rw [slotsOf, full, taken]
  rfl

theorem copyFrom_slotsOf (fits : elements.length ≤ kArraySize) :
    copyFrom (slotsOf kArraySize elements) elements.length 0 (List.replicate kArraySize none) =
      some (slotsOf kArraySize elements) := by
  have copied := copyFrom_between elements [] [] (List.replicate (kArraySize - elements.length) none)
    (List.replicate (kArraySize - elements.length) none) rfl
  rw [List.nil_append, List.nil_append, List.length_nil, ← List.replicate_add, Nat.add_sub_cancel' fits] at copied
  exact copied

theorem slotsOf_free (room : elements.length < kArraySize) :
    slotsOf kArraySize elements =
      elements.map some ++ none :: List.replicate (kArraySize - (elements.length + 1)) none := by
  have count : kArraySize - elements.length = kArraySize - (elements.length + 1) + 1 := by omega
  rw [slotsOf, count, List.replicate_succ]

theorem slotsOf_concat (elements : List (K × V)) (value : K × V) :
    slotsOf kArraySize (elements ++ [value]) =
      elements.map some ++ some value :: List.replicate (kArraySize - (elements.length + 1)) none := by
  rw [slotsOf, List.map_append, List.append_assoc, List.length_append]
  rfl

theorem init_slotsOf (room : elements.length < kArraySize) :
    init (slotsOf kArraySize elements) elements.length value = some (slotsOf kArraySize (elements ++ [value])) := by
  rw [slotsOf_free room, slotsOf_concat]
  have initialised := @init_between K V (elements.map some) (List.replicate (kArraySize - (elements.length + 1)) none) value
  rw [List.length_map] at initialised
  exact initialised

theorem destroy_last (fits : elements.length + 1 ≤ kArraySize) :
    destroy (slotsOf kArraySize (elements ++ [value])) elements.length = some (slotsOf kArraySize elements) := by
  rw [slotsOf_free fits, slotsOf_concat]
  have destroyed := @destroy_between K V (elements.map some) (List.replicate (kArraySize - (elements.length + 1)) none) value
  rw [List.length_map] at destroyed
  exact destroyed

theorem set_slotsOf {i : Nat} (inside : i < elements.length) :
    (slotsOf kArraySize elements).set i (some value) = slotsOf kArraySize (elements.set i value) := by
  rw [slotsOf, slotsOf, List.set_append_left _ _ (by rw [List.length_map]; exact inside), List.map_set, List.length_set]

variable [DecidableEq K]

/-- What a search for a key may find: no element of the key, or the index of one. -/
def Finds (elements : List (K × V)) (key : K) : Option Nat → Prop
  | none => ∀ element ∈ elements, element.1 ≠ key
  | some i => ∃ value, elements[i]? = some (key, value)

theorem findFrom_finds (key : K) (front back : List (K × V)) (split : elements = front ++ back)
    (ahead : ∀ element ∈ front, element.1 ≠ key) :
    ∃ found, findFrom (slotsOf kArraySize elements) key back.length front.length = some found ∧
      Finds elements key found := by
  induction back generalizing front with
  | nil =>
    rw [List.append_nil] at split
    subst split
    exact ⟨none, rfl, ahead⟩
  | cons element back inductive_hypothesis =>
    have there : elements[front.length]? = some element := by
      rw [split, List.getElem?_append_right (Nat.le_refl _), Nat.sub_self, List.getElem?_cons_zero]
    rw [List.length_cons, findFrom, get_slotsOf there, Option.bind_some]
    by_cases same : element.1 = key
    · subst same
      exact ⟨some front.length, if_pos rfl, element.2, there⟩
    · rw [if_neg same]
      have longer := inductive_hypothesis (front ++ [element]) (by rw [split, List.append_assoc]; rfl) (by
        intro other member
        rcases List.mem_append.mp member with before | last
        · exact ahead other before
        · rw [List.mem_singleton.mp last]
          exact same)
      rw [List.length_append, List.length_singleton] at longer
      exact longer

theorem find_finds (kArraySize : Nat) (key : K) (elements : List (K × V)) :
    ∃ found, findFrom (slotsOf kArraySize elements) key elements.length 0 = some found ∧ Finds elements key found :=
  findFrom_finds key [] elements rfl (by simp)

theorem findBackwards_finds (kArraySize : Nat) (key : K) (count : Nat) (inside : count ≤ elements.length)
    (behind : ∀ element ∈ elements.drop count, element.1 ≠ key) :
    ∃ found, findBackwards (slotsOf kArraySize elements) key count = some found ∧ Finds elements key found := by
  induction count with
  | zero => exact ⟨none, rfl, behind⟩
  | succ count inductive_hypothesis =>
    have there : elements[count]? = some elements[count] := List.getElem?_eq_getElem inside
    rw [findBackwards, get_slotsOf there, Option.bind_some]
    by_cases same : elements[count].1 = key
    · refine ⟨some count, if_pos same, elements[count].2, ?_⟩
      rw [there, ← same]
    · rw [if_neg same]
      apply inductive_hypothesis (Nat.le_of_succ_le inside)
      intro other member
      rw [List.drop_eq_getElem_cons inside] at member
      rcases List.mem_cons.mp member with rfl | later
      · exact same
      · exact behind other later

end Slots

end Libchrome.Base.Containers
