import Libchrome.Base.NumberConversions
import Libchrome.Base.Json.Value
import Libchrome.Library.OrderedMap
import Mathlib.Data.List.Lex

/-! `DictionaryValue` (`values.cc`), in a build without `DCHECK`s. -/

namespace Libchrome.Base.Values
open Library Bytes NumberConversions Json

abbrev Key := List Byte

/-- `dictionary_`, a `std::map`. -/
abbrev Entries (D : Type) := List (Key × Value D)

/-- `std::string`'s order. -/
@[reducible] def keyOrder : LinearOrder Key where
  le := (· ≤ ·)
  lt := (· < ·)
  le_refl := List.le_refl
  le_trans _ _ _ := List.le_trans
  le_antisymm _ _ := List.le_antisymm
  le_total := List.le_total
  lt_iff_le_not_ge _ _ := ⟨fun less => ⟨List.le_of_lt less, fun notLess => notLess less⟩, fun both => not_not.mp both.2⟩
  toDecidableLE := inferInstance
  toDecidableLT := inferInstance
  toDecidableEq := inferInstance
  compare former latter := compareOfLessAndEq former latter
  compare_eq_compareOfLessAndEq _ _ := rfl

local instance : LinearOrder Key := keyOrder

theorem keyLess_iff (former latter : Key) : keyLess former latter = true ↔ former < latter := by
  induction former generalizing latter with
  | nil => cases latter <;> simp [keyLess]
  | cons byte rest ih =>
    cases latter with
    | nil => simp [keyLess]
    | cons other others => simp [keyLess, List.cons_lt_cons_iff, ih]

variable {D : Type}

/-- The keys of the entries ascend, as in a `std::map`. -/
def Ascending (entries : Entries D) : Prop := entries.Pairwise fun former latter => former.1 < latter.1

variable {entries others : Entries D}

/-- Only the keys matter for the order. -/
theorem Ascending.of_keys (ascending : Ascending entries) (same : entries.map Prod.fst = others.map Prod.fst) :
    Ascending others := by
  have keys : (entries.map Prod.fst).Pairwise fun former latter => former < latter := List.pairwise_map.mpr ascending
  rw [same] at keys
  exact List.pairwise_map.mp keys

/-! ### Entries by key -/

/-- `IsType(TYPE_DICTIONARY)` and the cast that it allows. -/
def asDictionary : Value D → Option (Entries D)
  | .dictionary entries => some entries
  | _ => none

def getWithoutPathExpansion (entries : Entries D) (key : Key) : Option (Value D) :=
  OrderedMap.valueIn key entries

def getDictionaryWithoutPathExpansion (entries : Entries D) (key : Key) : Option (Entries D) :=
  (getWithoutPathExpansion entries key).bind asDictionary

/-- `RemoveWithoutPathExpansion`: what is left, and what is removed. -/
def removeWithoutPathExpansion (entries : Entries D) (key : Key) : Entries D × Option (Value D) :=
  (OrderedMap.eraseIn key entries, getWithoutPathExpansion entries key)

theorem setWithoutPathExpansion_eq (entries : Entries D) (key : Key) (value : Value D) :
    setWithoutPathExpansion entries key value = OrderedMap.updateIn key (fun _ => value) entries := by
  induction entries with
  | nil => rfl
  | cons entry rest ih =>
    rw [setWithoutPathExpansion, OrderedMap.updateIn, ih]
    simp only [keyLess_iff]
    rcases lt_trichotomy entry.1 key with below | same | above
    · rw [if_pos below, if_neg below.not_gt, if_neg below.ne]
    · rw [if_neg (same ▸ lt_irrefl key), if_pos same, if_neg (same ▸ lt_irrefl key), if_pos same]
    · rw [if_neg above.not_gt, if_neg above.ne', if_pos above]

section
variable (ascending : Ascending entries)
include ascending

theorem get_set (key other : Key) (value : Value D) :
    getWithoutPathExpansion (setWithoutPathExpansion entries key value) other =
      if other = key then some value else getWithoutPathExpansion entries other := by
  rw [setWithoutPathExpansion_eq]
  exact OrderedMap.valueIn_updateIn key other _ ascending

theorem set_ascending (key : Key) (value : Value D) :
    Ascending (setWithoutPathExpansion entries key value) := by
  rw [setWithoutPathExpansion_eq]
  exact OrderedMap.updateIn_sorted key _ ascending

theorem get_remove (key other : Key) :
    getWithoutPathExpansion (removeWithoutPathExpansion entries key).1 other =
      if other = key then none else getWithoutPathExpansion entries other :=
  OrderedMap.valueIn_eraseIn key other ascending

theorem remove_ascending (key : Key) :
    Ascending (removeWithoutPathExpansion entries key).1 :=
  OrderedMap.eraseIn_sorted key ascending

end

theorem mem_of_get {key : Key} {value : Value D} (found : getWithoutPathExpansion entries key = some value) :
    (key, value) ∈ entries := by
  induction entries with
  | nil => cases found
  | cons entry rest ih =>
    rw [getWithoutPathExpansion, OrderedMap.valueIn] at found
    split at found
    next same => exact List.mem_cons.mpr (.inl (Prod.ext same.symm (Option.some.inj found).symm))
    next => exact List.mem_cons_of_mem entry (ih found)

theorem get_cons (entry : Key × Value D) (rest : Entries D) (key : Key) :
    getWithoutPathExpansion (entry :: rest) key =
      if entry.1 = key then some entry.2 else getWithoutPathExpansion rest key := rfl

variable {entry : Key × Value D}

theorem get_tail {rest : Entries D} (ascending : Ascending (entry :: rest)) :
    getWithoutPathExpansion rest entry.1 = none :=
  OrderedMap.valueIn_eq_none fun other member => ((List.pairwise_cons.mp ascending).1 other member).ne'

theorem get_of_mem (ascending : Ascending entries) (member : entry ∈ entries) :
    getWithoutPathExpansion entries entry.1 = some entry.2 :=
  (OrderedMap.find_eq_some_iff ⟨entries, ascending⟩).mpr member

theorem mem_of_mem_remove {key : Key} (member : entry ∈ (removeWithoutPathExpansion entries key).1) :
    entry ∈ entries :=
  OrderedMap.mem_of_mem_eraseIn member

/-- Entries are related one by one when what they give to the keys is. -/
theorem forall₂_iff (related : Value D → Value D → Prop) (ascending : Ascending entries)
    (otherAscending : Ascending others) :
    List.Forall₂ (fun entry other => entry.1 = other.1 ∧ related entry.2 other.2) entries others ↔
      ∀ key, Option.Rel related (getWithoutPathExpansion entries key) (getWithoutPathExpansion others key) :=
  ⟨OrderedMap.valueIn_of_forall₂ related, OrderedMap.forall₂_of_valueIn related ascending otherAscending⟩

/-- Entries are known by what they give to the keys. -/
theorem entries_ext (ascending : Ascending entries) (otherAscending : Ascending others)
    (same : ∀ key, getWithoutPathExpansion entries key = getWithoutPathExpansion others key) : entries = others :=
  OrderedMap.eq_of_valueIn ascending otherAscending same

theorem eq_nil_iff : entries = [] ↔ ∀ key, getWithoutPathExpansion entries key = none := by
  constructor
  · rintro rfl key
    rfl
  · intro none
    cases entries with
    | nil => rfl
    | cons entry rest =>
      have first := none entry.1
      rw [getWithoutPathExpansion, OrderedMap.valueIn, if_pos rfl] at first
      exact absurd first (Option.some_ne_none _)

/-- Setting what is there already. -/
theorem set_same (ascending : Ascending entries) {key : Key} {value : Value D}
    (there : getWithoutPathExpansion entries key = some value) : setWithoutPathExpansion entries key value = entries := by
  apply entries_ext (set_ascending ascending key value) ascending
  intro other
  rw [get_set ascending]
  split
  next same => rw [same, there]
  next => rfl

/-- Removing what is not there. -/
theorem remove_absent (ascending : Ascending entries) {key : Key}
    (absent : getWithoutPathExpansion entries key = none) : (removeWithoutPathExpansion entries key).1 = entries := by
  apply entries_ext (remove_ascending ascending key) ascending
  intro other
  rw [get_remove ascending]
  split
  next same => rw [same, absent]
  next => rfl

/-! ### Entries by dotted path -/

/-- `find('.')`. -/
def find (path : List Byte) : Option Nat :=
  path.findIdx? fun byte => byte = ascii '.'

/-- `rfind('.')`. -/
def rfind (path : List Byte) : Option Nat :=
  (path.reverse.findIdx? fun byte => byte = ascii '.').map fun fromEnd => path.length - 1 - fromEnd

theorem find_lt {path : List Byte} {position : Nat} (found : find path = some position) : position < path.length :=
  (List.findIdx?_eq_some_iff_getElem.mp found).1

def get (entries : Entries D) (path : List Byte) : Option (Value D) :=
  match _found : find path with
  | none => getWithoutPathExpansion entries path
  | some delimiterPosition =>
    match getDictionaryWithoutPathExpansion entries (path.take delimiterPosition) with
    | none => none
    | some child => get child (path.drop (delimiterPosition + 1))
termination_by path.length
decreasing_by
  have := find_lt _found
  rw [List.length_drop]
  omega

def getDictionary (entries : Entries D) (path : List Byte) : Option (Entries D) :=
  (get entries path).bind asDictionary

/-- A write through the pointer that `get` returns: what the path leads to becomes another value. -/
def assign (entries : Entries D) (path : List Byte) (value : Value D) : Entries D :=
  match _found : find path with
  | none => setWithoutPathExpansion entries path value
  | some delimiterPosition =>
    match getDictionaryWithoutPathExpansion entries (path.take delimiterPosition) with
    | none => entries
    | some child =>
      setWithoutPathExpansion entries (path.take delimiterPosition)
        (.dictionary (assign child (path.drop (delimiterPosition + 1)) value))
termination_by path.length
decreasing_by
  have := find_lt _found
  rw [List.length_drop]
  omega

def set (entries : Entries D) (path : List Byte) (value : Value D) : Entries D :=
  match _found : find path with
  | none => setWithoutPathExpansion entries path value
  | some delimiterPosition =>
    -- The child is changed in place where there is one.
    let child := (getDictionary entries (path.take delimiterPosition)).getD []
    setWithoutPathExpansion entries (path.take delimiterPosition)
      (.dictionary (set child (path.drop (delimiterPosition + 1)) value))
termination_by path.length
decreasing_by
  have := find_lt _found
  rw [List.length_drop]
  omega

def remove (entries : Entries D) (path : List Byte) : Entries D × Option (Value D) :=
  match rfind path with
  | none => removeWithoutPathExpansion entries path
  | some delimiterPosition =>
    match getDictionary entries (path.take delimiterPosition) with
    | none => (entries, none)
    | some currentDictionary =>
      let (left, outValue) := removeWithoutPathExpansion currentDictionary (path.drop (delimiterPosition + 1))
      (assign entries (path.take delimiterPosition) (.dictionary left), outValue)

def removePath (entries : Entries D) (path : List Byte) : Entries D × Option (Value D) :=
  match _found : find path with
  | none => removeWithoutPathExpansion entries path
  | some delimiterPosition =>
    let subdictPath := path.take delimiterPosition
    match getDictionary entries subdictPath with
    | none => (entries, none)
    | some subdict =>
      let (left, outValue) := removePath subdict (path.drop (delimiterPosition + 1))
      if outValue.isSome && left.isEmpty then ((removeWithoutPathExpansion entries subdictPath).1, outValue)
      else (setWithoutPathExpansion entries subdictPath (.dictionary left), outValue)
termination_by path.length
decreasing_by
  have := find_lt _found
  rw [List.length_drop]
  omega

end Libchrome.Base.Values
