import Libchrome.Library.Bytes

/-! The tree that a JSON text stands for (`values.cc`). -/

namespace Libchrome.Base.Json
open Library.Bytes

/-- `base::Value`, over the type of its doubles; a dictionary lists its `std::map` in the order of the keys. -/
inductive Value (D : Type) where
  | null
  | boolean (value : Bool)
  | integer (value : Int32)
  | double (value : D)
  | string (value : List Byte)
  | binary (buffer : List Byte)
  | list (items : List (Value D))
  | dictionary (entries : List (List Byte × Value D))

/-- What `base` and the C library say about doubles. -/
structure Doubles (D : Type) where
  /-- `StringToDouble`; `none` is a conversion that is not valid. -/
  stringToDouble : List Byte → Option D
  isFinite : D → Bool
  doubleToString : D → List Byte
  /-- The value as an `int64_t` where it is an integer in range. -/
  toInt64 : D → Option Int
  /-- `==`. -/
  same : D → D → Bool
  same_self : ∀ d, isFinite d = true → same d d = true

/-- Doubles of which no text is one. -/
def noDoubles : Doubles Empty where
  stringToDouble _ := none
  isFinite := Empty.elim
  doubleToString := Empty.elim
  toInt64 := Empty.elim
  same := Empty.elim
  same_self d := d.elim

variable {D : Type}

/-- `std::string`'s `<`. -/
def keyLess : List Byte → List Byte → Bool
  | [], [] => false
  | [], _ :: _ => true
  | _ :: _, [] => false
  | a :: as, b :: bs => a < b || (a == b && keyLess as bs)

/-- `DictionaryValue::SetWithoutPathExpansion`. -/
def setWithoutPathExpansion : List (List Byte × Value D) → List Byte → Value D → List (List Byte × Value D)
  | [], key, value => [(key, value)]
  | entry :: rest, key, value =>
    if keyLess entry.1 key then entry :: setWithoutPathExpansion rest key value
    else if entry.1 = key then (key, value) :: rest
    else (key, value) :: entry :: rest

mutual

/-- `Value::Equals` of the class that the value is of. -/
def equals (doubles : Doubles D) : Value D → Value D → Bool
  | .null, .null => true
  | .boolean lhs, .boolean rhs => lhs == rhs
  | .integer lhs, .integer rhs => lhs == rhs
  | .double lhs, .double rhs => doubles.same lhs rhs
  | .string lhs, .string rhs => lhs == rhs
  | .binary lhs, .binary rhs => lhs == rhs
  | .list lhs, .list rhs => equalsList doubles lhs rhs
  | .dictionary lhs, .dictionary rhs => equalsDictionary doubles lhs rhs
  | _, _ => false

def equalsList (doubles : Doubles D) : List (Value D) → List (Value D) → Bool
  | [], [] => true
  | lhs :: lhsRest, rhs :: rhsRest => equals doubles lhs rhs && equalsList doubles lhsRest rhsRest
  | _, _ => false

def equalsDictionary (doubles : Doubles D) : List (List Byte × Value D) → List (List Byte × Value D) → Bool
  | [], [] => true
  | (lhsKey, lhs) :: lhsRest, (rhsKey, rhs) :: rhsRest =>
    lhsKey == rhsKey && equals doubles lhs rhs && equalsDictionary doubles lhsRest rhsRest
  | _, _ => false

end

/-- Every double in the tree is finite. -/
inductive Finite (doubles : Doubles D) : Value D → Prop
  | null : Finite doubles .null
  | boolean (value : Bool) : Finite doubles (.boolean value)
  | integer (value : Int32) : Finite doubles (.integer value)
  | double (value : D) (finite : doubles.isFinite value = true) : Finite doubles (.double value)
  | string (value : List Byte) : Finite doubles (.string value)
  | binary (buffer : List Byte) : Finite doubles (.binary buffer)
  | list (items : List (Value D)) (finite : ∀ item ∈ items, Finite doubles item) : Finite doubles (.list items)
  | dictionary (entries : List (List Byte × Value D)) (finite : ∀ entry ∈ entries, Finite doubles entry.2) :
      Finite doubles (.dictionary entries)

variable {doubles : Doubles D}

theorem equalsList_self {items : List (Value D)} (each : ∀ item ∈ items, equals doubles item item = true) :
    equalsList doubles items items = true := by
  induction items with
  | nil => rw [equalsList]
  | cons item rest inductive_hypothesis =>
    rw [equalsList, each item List.mem_cons_self, Bool.true_and]
    exact inductive_hypothesis fun other member => each other (List.mem_cons_of_mem _ member)

variable {entries : List (List Byte × Value D)}

theorem equalsDictionary_self (each : ∀ entry ∈ entries, equals doubles entry.2 entry.2 = true) :
    equalsDictionary doubles entries entries = true := by
  induction entries with
  | nil => rw [equalsDictionary]
  | cons entry rest inductive_hypothesis =>
    rw [equalsDictionary, each entry List.mem_cons_self, beq_self_eq_true, Bool.and_true, Bool.true_and]
    exact inductive_hypothesis fun other member => each other (List.mem_cons_of_mem _ member)

theorem equals_self {value : Value D} (finite : Finite doubles value) : equals doubles value value = true := by
  induction finite with
  | null => rw [equals]
  | boolean value => rw [equals, beq_self_eq_true]
  | integer value => rw [equals, beq_self_eq_true]
  | double value finite => rw [equals, doubles.same_self value finite]
  | string value => rw [equals, beq_self_eq_true]
  | binary buffer => rw [equals, beq_self_eq_true]
  | list items finite each => rw [equals, equalsList_self each]
  | dictionary entries finite each => rw [equals, equalsDictionary_self each]

/-- A key behind all others is set at the end. -/
theorem setWithoutPathExpansion_last {key : List Byte} (value : Value D)
    (last : ∀ entry ∈ entries, keyLess entry.1 key = true) :
    setWithoutPathExpansion entries key value = entries ++ [(key, value)] := by
  induction entries with
  | nil => rfl
  | cons entry rest inductive_hypothesis =>
    rw [setWithoutPathExpansion, if_pos (last entry List.mem_cons_self), List.cons_append,
      inductive_hypothesis fun other member => last other (List.mem_cons_of_mem _ member)]

theorem mem_setWithoutPathExpansion {key : List Byte} {value : Value D} {entry : List Byte × Value D}
    (member : entry ∈ setWithoutPathExpansion entries key value) : entry = (key, value) ∨ entry ∈ entries := by
  induction entries with
  | nil =>
    left
    exact List.mem_singleton.mp member
  | cons first rest inductive_hypothesis =>
    rw [setWithoutPathExpansion] at member
    split at member
    next =>
      rcases List.mem_cons.mp member with rfl | later
      · exact Or.inr List.mem_cons_self
      · exact (inductive_hypothesis later).imp_right (List.mem_cons_of_mem _)
    next =>
      split at member
      next =>
        rcases List.mem_cons.mp member with rfl | later
        · exact Or.inl rfl
        · exact Or.inr (List.mem_cons_of_mem _ later)
      next => exact List.mem_cons.mp member

end Libchrome.Base.Json
