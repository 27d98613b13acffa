import Libchrome.Base.Values.Dictionary

/-! Trees of values with the invariants of their classes, and what lies in them along a list of keys. -/

namespace Libchrome.Base.Values
open Library Bytes NumberConversions Json

variable {D : Type}

/-- What the classes of `values.cc` can hold: the keys of a dictionary ascend, and a double is finite. -/
inductive Built (doubles : Doubles D) : Value D → Prop
  | null : Built doubles .null
  | boolean (value : Bool) : Built doubles (.boolean value)
  | integer (value : Int32) : Built doubles (.integer value)
  | double (value : D) (finite : doubles.isFinite value = true) : Built doubles (.double value)
  | string (value : List Byte) : Built doubles (.string value)
  | binary (buffer : List Byte) : Built doubles (.binary buffer)
  | list (items : List (Value D)) (built : ∀ item ∈ items, Built doubles item) : Built doubles (.list items)
  | dictionary (entries : Entries D) (ascending : Ascending entries)
      (built : ∀ entry ∈ entries, Built doubles entry.2) : Built doubles (.dictionary entries)

variable {doubles : Doubles D}

/-- The value is a list or a dictionary. -/
def isContainer : Value D → Bool
  | .list _ => true
  | .dictionary _ => true
  | _ => false

namespace Built

variable {entries : Entries D}

theorem ascending (built : Built doubles (.dictionary entries)) : Ascending entries := by
  cases built with
  | dictionary _ ascending _ => exact ascending

variable {value : Value D}

theorem entry (built : Built doubles (.dictionary entries)) {key : Key}
    (found : getWithoutPathExpansion entries key = some value) : Built doubles value := by
  cases built with
  | dictionary _ _ each => exact each (key, value) (mem_of_get found)

theorem item {items : List (Value D)} (built : Built doubles (.list items)) {item : Value D} (member : item ∈ items) :
    Built doubles item := by
  cases built with
  | list _ each => exact each item member

theorem empty : Built doubles (.dictionary []) :=
  .dictionary [] List.Pairwise.nil fun _ member => absurd member List.not_mem_nil

theorem set (built : Built doubles (.dictionary entries)) (key : Key) (new : Built doubles value) :
    Built doubles (.dictionary (setWithoutPathExpansion entries key value)) := by
  cases built with
  | dictionary _ ascending each =>
    apply Built.dictionary _ (set_ascending ascending key value)
    intro entry member
    rcases mem_setWithoutPathExpansion member with rfl | old
    · exact new
    · exact each entry old

theorem remove (built : Built doubles (.dictionary entries)) (key : Key) :
    Built doubles (.dictionary (removeWithoutPathExpansion entries key).1) := by
  cases built with
  | dictionary _ ascending each =>
    apply Built.dictionary _ (remove_ascending ascending key)
    intro entry member
    exact each entry (mem_of_mem_remove member)

theorem finite (built : Built doubles value) : Finite doubles value := by
  induction built with
  | null => exact .null
  | boolean value => exact .boolean value
  | integer value => exact .integer value
  | double value finite => exact .double value finite
  | string value => exact .string value
  | binary buffer => exact .binary buffer
  | list items _ each => exact .list items each
  | dictionary entries _ _ each => exact .dictionary entries each

/-- Induction over the lists and dictionaries of a tree; all other values are leaves. -/
@[elab_as_elim] theorem containers {motive : ∀ value : Value D, Built doubles value → Prop}
    (leaf : ∀ value (built : Built doubles value), isContainer value = false → motive value built)
    (list : ∀ items (built : Built doubles (.list items)),
      (∀ item (member : item ∈ items), motive item (built.item member)) → motive (.list items) built)
    (dictionary : ∀ entries (built : Built doubles (.dictionary entries)),
      (∀ key value (found : getWithoutPathExpansion entries key = some value), motive value (built.entry found)) →
        motive (.dictionary entries) built)
    (value : Value D) (built : Built doubles value) : motive value built := by
  induction built with
  | dictionary entries ascending each ih =>
    exact dictionary entries (.dictionary entries ascending each) fun key value found => ih (key, value) (mem_of_get found)
  | list items each ih => exact list items (.list items each) ih
  | null => exact leaf _ .null rfl
  | boolean value => exact leaf _ (.boolean value) rfl
  | integer value => exact leaf _ (.integer value) rfl
  | double value finite => exact leaf _ (.double value finite) rfl
  | string value => exact leaf _ (.string value) rfl
  | binary buffer => exact leaf _ (.binary buffer) rfl

/-- Induction over the dictionaries of a tree. -/
@[elab_as_elim] theorem dictionaries {motive : ∀ value : Value D, Built doubles value → Prop}
    (leaf : ∀ value (built : Built doubles value), asDictionary value = none → motive value built)
    (dictionary : ∀ entries (built : Built doubles (.dictionary entries)),
      (∀ key value (found : getWithoutPathExpansion entries key = some value), motive value (built.entry found)) →
        motive (.dictionary entries) built)
    (value : Value D) (built : Built doubles value) : motive value built := by
  induction value, built using containers with
  | leaf value built isLeaf =>
    apply leaf value built
    cases value with
    | dictionary entries => cases isLeaf
    | _ => rfl
  | list items built _ => exact leaf (.list items) built rfl
  | dictionary entries built ih => exact dictionary entries built ih

theorem equals_self (built : Built doubles value) : equals doubles value value = true :=
  Json.equals_self built.finite

end Built

/-- A `DictionaryValue`. -/
structure DictionaryValue (doubles : Doubles D) where
  entries : Entries D
  built : Built doubles (.dictionary entries)

namespace DictionaryValue

def tree (dictionary : DictionaryValue doubles) : Value D := .dictionary dictionary.entries

theorem built_tree (dictionary : DictionaryValue doubles) : Built doubles dictionary.tree := dictionary.built

theorem eq_of_tree {dictionary other : DictionaryValue doubles} (same : dictionary.tree = other.tree) :
    dictionary = other := by
  cases dictionary
  cases other
  cases same
  rfl

end DictionaryValue

/-- The entries of a value that is a dictionary, none otherwise. -/
def entriesOf (value : Value D) : Entries D :=
  (asDictionary value).getD []

@[simp] theorem entriesOf_dictionary (entries : Entries D) : entriesOf (.dictionary entries) = entries := rfl

variable {value : Value D} {entries : Entries D}

theorem asDictionary_eq_some : asDictionary value = some entries ↔ value = .dictionary entries := by
  cases value <;> simp [asDictionary]

theorem dictionary_entriesOf {key : Key} {child : Value D}
    (there : getWithoutPathExpansion (entriesOf value) key = some child) : Value.dictionary (entriesOf value) = value := by
  cases isDictionary : asDictionary value with
  | none =>
    rw [entriesOf, isDictionary] at there
    cases there
  | some entries =>
    rw [entriesOf, isDictionary, Option.getD_some]
    exact (asDictionary_eq_some.mp isDictionary).symm

theorem Built.entriesOf (built : Built doubles value) : Built doubles (.dictionary (entriesOf value)) := by
  cases built with
  | dictionary entries ascending each => exact .dictionary entries ascending each
  | _ => exact Built.empty

/-- The invariants of a value that may be absent. -/
def BuiltIfAny (doubles : Doubles D) (value : Option (Value D)) : Prop :=
  ∀ there, value = some there → Built doubles there

theorem Built.get (built : Built doubles (.dictionary entries)) (key : Key) :
    BuiltIfAny doubles (getWithoutPathExpansion entries key) := fun _ found => built.entry found

theorem BuiltIfAny.asDictionary {old : Option (Value D)} (built : BuiltIfAny doubles old)
    (there : old.bind asDictionary = some entries) : Built doubles (.dictionary entries) := by
  obtain ⟨value, rfl, isDictionary⟩ := Option.bind_eq_some_iff.mp there
  rw [asDictionary_eq_some] at isDictionary
  exact isDictionary ▸ built value rfl

theorem DictionaryValue.builtIfAny_tree (dictionary : DictionaryValue doubles) :
    BuiltIfAny doubles (some dictionary.tree) := by
  intro value same
  rw [← Option.some.inj same]
  exact dictionary.built

/-- What the keys lead to, one after the other. -/
def follow : List Key → Value D → Option (Value D)
  | [], value => some value
  | key :: keys, value => (getWithoutPathExpansion (entriesOf value) key).bind (follow keys)

@[simp] theorem follow_nil (value : Value D) : follow [] value = some value := rfl

theorem follow_cons (key : Key) (keys : List Key) (value : Value D) :
    follow (key :: keys) value = (getWithoutPathExpansion (entriesOf value) key).bind (follow keys) := rfl

@[simp] theorem follow_singleton (key : Key) (value : Value D) :
    follow [key] value = getWithoutPathExpansion (entriesOf value) key := by
  rw [follow_cons]
  cases getWithoutPathExpansion (entriesOf value) key <;> rfl

theorem follow_append (keys more : List Key) (value : Value D) :
    follow (keys ++ more) value = (follow keys value).bind (follow more) := by
  induction keys generalizing value with
  | nil => rfl
  | cons key keys ih =>
    rw [List.cons_append, follow_cons, follow_cons, Option.bind_assoc]
    congr
    funext child
    exact ih child

theorem Built.follow {keys : List Key} {child : Value D} (built : Built doubles value)
    (found : follow keys value = some child) : Built doubles child := by
  induction keys generalizing value with
  | nil => exact Option.some.inj found ▸ built
  | cons key keys ih =>
    obtain ⟨next, there, further⟩ := Option.bind_eq_some_iff.mp found
    exact ih (built.entriesOf.entry there) further

theorem follow_empty {keys : List Key} (nonempty : keys ≠ []) (leaf : entriesOf value = []) :
    follow keys value = none := by
  cases keys with
  | nil => exact absurd rfl nonempty
  | cons key keys =>
    rw [follow_cons, leaf]
    rfl

/-! ### Paths and their components -/

/-- The keys of a dotted path. -/
def components (path : List Byte) : List Key := path.splitOn (ascii '.')

theorem components_ne_nil (path : List Byte) : components path ≠ [] := List.splitOn_ne_nil _ path

variable {path : List Byte}

theorem components_of_find_none (found : find path = none) : components path = [path] := by
  apply List.splitOn_eq_singleton
  intro member
  have each := List.findIdx?_eq_none_iff.mp found (ascii '.') member
  exact absurd each (by simp)

/-- A path at a delimiter. -/
theorem eq_of_delimiter {position : Nat} (inside : position < path.length) (delimiter : path[position] = ascii '.') :
    path = path.take position ++ ascii '.' :: path.drop (position + 1) := by
  rw [← delimiter, ← List.drop_eq_getElem_cons inside, List.take_append_drop]

theorem components_append (front back : List Byte) :
    components (front ++ ascii '.' :: back) = components front ++ components back :=
  List.splitOn_append_cons_self front back

theorem components_of_no_delimiter (absent : ascii '.' ∉ path) : components path = [path] :=
  List.splitOn_eq_singleton absent

theorem components_of_find {position : Nat} (found : find path = some position) :
    components path = path.take position :: components (path.drop (position + 1)) := by
  obtain ⟨inside, delimiter, before⟩ := List.findIdx?_eq_some_iff_getElem.mp found
  have absent : ascii '.' ∉ path.take position := by
    intro member
    obtain ⟨i, small, same⟩ := List.getElem_of_mem member
    rw [List.getElem_take] at same
    exact before i (by rw [List.length_take] at small; omega) (by simp [same])
  calc components path
      = components (path.take position ++ ascii '.' :: path.drop (position + 1)) := by
        rw [← eq_of_delimiter inside (of_decide_eq_true delimiter)]
    _ = path.take position :: components (path.drop (position + 1)) := by
        rw [components_append, components_of_no_delimiter absent, List.singleton_append]

/-! `DeepCopy` and `Equals` (`values.cc`) of whole trees. -/

/-! ### Copies -/

section Copies

variable [Zero D] (doubles : Doubles D)

/-- `FundamentalValue(double)`. -/
def fundamentalDouble (inValue : D) : Value D :=
  .double (if doubles.isFinite inValue then inValue else 0)

mutual

/-- `DeepCopy` of the class that the value is of. -/
def deepCopy : Value D → Value D
  | .null => .null
  | .boolean value => .boolean value
  | .integer value => .integer value
  | .double value => fundamentalDouble doubles value
  | .string value => .string value
  | .binary buffer => .binary buffer
  | .list items => .list (deepCopyList items)
  | .dictionary entries => .dictionary (deepCopyDictionary [] entries)

def deepCopyList : List (Value D) → List (Value D)
  | [] => []
  | item :: rest => deepCopy item :: deepCopyList rest

/-- The loop of `DictionaryValue::DeepCopy`, with the result so far. -/
def deepCopyDictionary (result : Entries D) : Entries D → Entries D
  | [] => result
  | (key, value) :: rest => deepCopyDictionary (setWithoutPathExpansion result key (deepCopy value)) rest

end

variable {doubles}

theorem deepCopyList_eq {items : List (Value D)} (each : ∀ item ∈ items, deepCopy doubles item = item) :
    deepCopyList doubles items = items := by
  induction items with
  | nil => rw [deepCopyList]
  | cons item rest ih =>
    rw [deepCopyList, each item List.mem_cons_self, ih fun other member => each other (List.mem_cons_of_mem item member)]

theorem deepCopyDictionary_eq {result entries : Entries D} (ascending : Ascending (result ++ entries))
    (each : ∀ entry ∈ entries, deepCopy doubles entry.2 = entry.2) :
    deepCopyDictionary doubles result entries = result ++ entries := by
  induction entries generalizing result with
  | nil => rw [deepCopyDictionary, List.append_nil]
  | cons entry rest ih =>
    have last : ∀ other ∈ result, keyLess other.1 entry.1 = true := fun other member =>
      (keyLess_iff other.1 entry.1).mpr ((List.pairwise_append.mp ascending).2.2 other member entry List.mem_cons_self)
    rw [List.append_cons] at ascending ⊢
    rw [deepCopyDictionary, each entry List.mem_cons_self, setWithoutPathExpansion_last entry.2 last]
    exact ih ascending fun other member => each other (List.mem_cons_of_mem entry member)

/-- A deep copy is the same tree. -/
theorem deepCopy_eq {value : Value D} (built : Built doubles value) : deepCopy doubles value = value := by
  induction built with
  | null => rw [deepCopy]
  | boolean value => rw [deepCopy]
  | integer value => rw [deepCopy]
  | double value finite => rw [deepCopy, fundamentalDouble, if_pos finite]
  | string value => rw [deepCopy]
  | binary buffer => rw [deepCopy]
  | list items _ each => rw [deepCopy, deepCopyList_eq each]
  | dictionary entries ascending _ each => rw [deepCopy, deepCopyDictionary_eq (List.nil_append entries ▸ ascending) each, List.nil_append]

end Copies

/-! ### Comparison -/

section Comparison

variable {doubles : Doubles D}

theorem equalsDictionary_iff_forall₂ (entries others : Entries D) : equalsDictionary doubles entries others = true ↔
    List.Forall₂ (fun entry other => entry.1 = other.1 ∧ equals doubles entry.2 other.2 = true) entries others := by
  induction entries generalizing others with
  | nil =>
    cases others with
    | nil => simp only [equalsDictionary, List.Forall₂.nil]
    | cons other others => simp only [equalsDictionary, Bool.false_eq_true, List.forall₂_nil_left_iff, reduceCtorEq]
  | cons entry rest ih =>
    cases others with
    | nil => simp only [equalsDictionary, Bool.false_eq_true, List.forall₂_nil_right_iff, reduceCtorEq]
    | cons other others => simp only [equalsDictionary, Bool.and_eq_true, beq_iff_eq, List.forall₂_cons, ih]

/-- Dictionaries are equal when they have equal values under each key. -/
theorem equals_dictionary_iff {entries others : Entries D} (ascending : Ascending entries)
    (otherAscending : Ascending others) : equals doubles (.dictionary entries) (.dictionary others) = true ↔
      ∀ key, Option.Rel (fun value other => equals doubles value other = true)
        (getWithoutPathExpansion entries key) (getWithoutPathExpansion others key) := by
  rw [equals, equalsDictionary_iff_forall₂]
  exact forall₂_iff (fun value other => equals doubles value other = true) ascending otherAscending

end Comparison

end Libchrome.Base.Values
