import Libchrome.Library.Consuming
import Mathlib.Data.String.Basic
import Libchrome.Library.OrderedMap

/-!
# The reader of a message (`message.cc`)

A message is a tree of values, and an iterator is what remains of a list of siblings.
-/

namespace Libchrome.Dbus
open Library.Consuming

/-- `DBUS_TYPE_*`. -/
inductive DataType where
  | byte
  | boolean
  | int16
  | uint16
  | int32
  | uint32
  | int64
  | uint64
  | double
  | string
  | objectPath
  | signature
  | unixFd
  | array
  | struct
  | dictEntry
  | variant
deriving DecidableEq, Repr

/-- A value of a basic type; a double is its bits. -/
inductive Basic where
  | byte (value : UInt8)
  | boolean (value : Bool)
  | int16 (value : Int16)
  | uint16 (value : UInt16)
  | int32 (value : Int32)
  | uint32 (value : UInt32)
  | int64 (value : Int64)
  | uint64 (value : UInt64)
  | double (bits : UInt64)
  | string (value : String)
  | objectPath (value : String)
  | signature (value : String)
  | unixFd (value : Int32)
deriving DecidableEq

def Basic.dataType : Basic → DataType
  | .byte _ => .byte
  | .boolean _ => .boolean
  | .int16 _ => .int16
  | .uint16 _ => .uint16
  | .int32 _ => .int32
  | .uint32 _ => .uint32
  | .int64 _ => .int64
  | .uint64 _ => .uint64
  | .double _ => .double
  | .string _ => .string
  | .objectPath _ => .objectPath
  | .signature _ => .signature
  | .unixFd _ => .unixFd

/-- The characters that a `char*` argument receives. -/
def Basic.text : Basic → String
  | .string value => value
  | .objectPath value => value
  | .signature value => value
  | _ => ""

def Basic.toUint16 : Basic → UInt16
  | .uint16 value => value
  | _ => 0

inductive Value where
  | basic (value : Basic)
  | array (elements : List Value)
  | struct (fields : List Value)
  | dictEntry (key : Basic) (value : Value)
  | variant (value : Value)

def Value.dataType : Value → DataType
  | .basic value => value.dataType
  | .array _ => .array
  | .struct _ => .struct
  | .dictEntry _ _ => .dictEntry
  | .variant _ => .variant

/-- What `dbus_message_iter_recurse` enters. -/
def Value.contents : Value → List Value
  | .basic _ => []
  | .array elements => elements
  | .struct fields => fields
  | .dictEntry key value => [.basic key, value]
  | .variant value => [value]

mutual

/-- The number of values in a tree. -/
def Value.size : Value → Nat
  | .basic _ => 1
  | .array elements => sizes elements + 1
  | .struct fields => sizes fields + 1
  | .dictEntry _ value => value.size + 2
  | .variant value => value.size + 1

def sizes : List Value → Nat
  | [] => 0
  | value :: rest => value.size + sizes rest

end

mutual

/-- The basic values of a tree, in order. -/
def Value.leaves : Value → List Basic
  | .basic value => [value]
  | .array elements => leavesOf elements
  | .struct fields => leavesOf fields
  | .dictEntry key value => key :: value.leaves
  | .variant value => value.leaves

def leavesOf : List Value → List Basic
  | [] => []
  | value :: rest => value.leaves ++ leavesOf rest

end

/-- A value that `ToStringInternal` prints. -/
def Basic.printed (leaf : Basic) : Bool := leaf.dataType ≠ .signature ∧ leaf.dataType ≠ .unixFd

/-- `raw_message_iter_`. -/
abbrev Reader := List Value

/-- `GetDataType`, with `none` for `DBUS_TYPE_INVALID`. -/
def getDataType (reader : Reader) : Option DataType := reader.head?.map Value.dataType

/-- `PopBasic`: the value and the iterator behind it, or `none` where it returns false. -/
def popBasic (dbus_type : DataType) : Reader → Option (Basic × Reader)
  | .basic value :: rest => if value.dataType = dbus_type then some (value, rest) else none
  | _ => none

/-- `PopContainer`: the sub reader and the iterator behind the container. -/
def popContainer (dbus_type : DataType) : Reader → Option (Reader × Reader)
  | value :: rest => if value.dataType = dbus_type then some (value.contents, rest) else none
  | [] => none

def popString (reader : Reader) : Option (String × Reader) :=
  (popBasic .string reader).map fun popped => (popped.1.text, popped.2)

def popObjectPath (reader : Reader) : Option (String × Reader) :=
  (popBasic .objectPath reader).map fun popped => (popped.1.text, popped.2)

def popUint16 (reader : Reader) : Option (UInt16 × Reader) :=
  (popBasic .uint16 reader).map fun popped => (popped.1.toUint16, popped.2)

def popArray (reader : Reader) : Option (Reader × Reader) := popContainer .array reader

def popStruct (reader : Reader) : Option (Reader × Reader) := popContainer .struct reader

def popDictEntry (reader : Reader) : Option (Reader × Reader) := popContainer .dictEntry reader

def popVariant (reader : Reader) : Option (Reader × Reader) := popContainer .variant reader

/-- The byte of an element of a fixed array. -/
def Value.byte? : Value → Option UInt8
  | .basic (.byte value) => some value
  | _ => none

/-- `PopArrayOfBytes`: the bytes, unless it returns false, and the iterator behind what was popped. -/
def popArrayOfBytes (reader : Reader) : Option (List UInt8) × Reader :=
  match popArray reader with
  | none => (none, reader)
  | some (array_reader, reader) =>
    if array_reader = [] then (some [], reader)
    else if getDataType array_reader = some .byte then (some (array_reader.filterMap Value.byte?), reader)
    else (none, reader)

/-- The loop of `PopArrayOfStrings` and of `PopArrayOfObjectPaths`. -/
def popArrayOf (pop : Reader → Option (String × Reader)) (fuel : Nat) (reader : Reader) :
    Walk (Bool × List String × Reader) :=
  match popArray reader with
  | none => pure (false, [], reader)
  | some (array_reader, reader) =>
    whileMore
      (fun array_reader strings =>
        match pop array_reader with
        | none => pure (.leave (false, strings, reader))
        | some (string, array_reader) => pure (.again array_reader (strings ++ [string])))
      (fun strings => (true, strings, reader)) fuel array_reader []

def popArrayOfStrings (fuel : Nat) (reader : Reader) : Walk (Bool × List String × Reader) :=
  popArrayOf popString fuel reader

def popArrayOfObjectPaths (fuel : Nat) (reader : Reader) : Walk (Bool × List String × Reader) :=
  popArrayOf popObjectPath fuel reader

/-- `PopVariantOfBasic`: the iterator is behind the variant also where the inner type is another. -/
def popVariantOfBasic (dbus_type : DataType) (reader : Reader) : Option Basic × Reader :=
  match popVariant reader with
  | none => (none, reader)
  | some (variant_reader, reader) => ((popBasic dbus_type variant_reader).map Prod.fst, reader)

/-- `ToStringInternal`, whose text is only logged: `false` where it does not come back, at `LOG(FATAL)` for
a signature, and at the `CHECK` of `FileDescriptor::value`, since `PutValue` leaves the descriptor unchecked. -/
def toStringInternal : Nat → Reader → Walk Bool
  | 0, _ => none
  | fuel + 1, reader =>
    whileMore
      (fun reader _ =>
        match getDataType reader with
        | none => pure (.leave true)
        | some type =>
          match type with
          | .signature => pure (.leave false)
          | .unixFd => pure (.leave false)
          | .array | .struct | .dictEntry | .variant =>
            match popContainer type reader with
            | none => pure (.leave true)
            | some (sub_reader, reader) => do
              let returned ← toStringInternal fuel sub_reader
              if returned then pure (.again reader ()) else pure (.leave false)
          | _ =>
            match popBasic type reader with
            | none => pure (.leave true)
            | some (_, reader) => pure (.again reader ()))
      (fun _ => true) (fuel + 1) reader ()

section Reading

variable {dbus_type : DataType} {reader sub rest : Reader}

theorem popBasic_eq_some_iff {value : Basic} :
    popBasic dbus_type reader = some (value, rest) ↔ reader = .basic value :: rest ∧ value.dataType = dbus_type := by
  unfold popBasic
  split
  next other remaining =>
    split
    next same =>
      simp only [Option.some.injEq, Prod.mk.injEq, List.cons.injEq, Value.basic.injEq]
      constructor
      · intro both
        exact ⟨both, both.1 ▸ same⟩
      · exact And.left
    next differs =>
      simp only [reduceCtorEq, List.cons.injEq, Value.basic.injEq, false_iff]
      intro both
      exact differs (both.1.1 ▸ both.2)
  next other =>
    simp only [reduceCtorEq, false_iff]
    intro both
    exact other value rest both.1

theorem popContainer_eq_some_iff :
    popContainer dbus_type reader = some (sub, rest) ↔
      ∃ value, reader = value :: rest ∧ value.dataType = dbus_type ∧ value.contents = sub := by
  cases reader with
  | nil => simp only [popContainer, reduceCtorEq, List.nil_eq, false_and, exists_false]
  | cons value remaining =>
    simp only [popContainer]
    split
    next same =>
      simp only [Option.some.injEq, Prod.mk.injEq, List.cons.injEq]
      constructor
      · intro both
        exact ⟨value, ⟨rfl, both.2⟩, same, both.1⟩
      · intro ⟨other, both, _, contents⟩
        exact ⟨both.1 ▸ contents, both.2⟩
    next differs =>
      simp only [reduceCtorEq, List.cons.injEq, false_iff, not_exists]
      intro other both
      exact differs (both.1.1 ▸ both.2.1)

theorem popString_eq_some_iff {text : String} :
    popString reader = some (text, rest) ↔ reader = .basic (.string text) :: rest := by
  simp only [popString, Option.map_eq_some_iff, Prod.exists, popBasic_eq_some_iff, Prod.mk.injEq]
  constructor
  · rintro ⟨value, _, ⟨rfl, typed⟩, same, rfl⟩
    cases value <;> cases typed
    cases same
    rfl
  · intro same
    exact ⟨.string text, rest, ⟨same, rfl⟩, rfl, rfl⟩

theorem popObjectPath_eq_some_iff {path : String} :
    popObjectPath reader = some (path, rest) ↔ reader = .basic (.objectPath path) :: rest := by
  simp only [popObjectPath, Option.map_eq_some_iff, Prod.exists, popBasic_eq_some_iff, Prod.mk.injEq]
  constructor
  · rintro ⟨value, _, ⟨rfl, typed⟩, same, rfl⟩
    cases value <;> cases typed
    cases same
    rfl
  · intro same
    exact ⟨.objectPath path, rest, ⟨same, rfl⟩, rfl, rfl⟩

theorem popArray_eq_some_iff : popArray reader = some (sub, rest) ↔ reader = .array sub :: rest := by
  simp only [popArray, popContainer_eq_some_iff]
  constructor
  · rintro ⟨value, rfl, typed, rfl⟩
    cases value with
    | basic value => cases value <;> cases typed
    | array elements => rfl
    | struct | dictEntry | variant => cases typed
  · intro same
    exact ⟨.array sub, same, rfl, rfl⟩

theorem popDictEntry_eq_some_iff :
    popDictEntry reader = some (sub, rest) ↔
      ∃ key value, reader = .dictEntry key value :: rest ∧ sub = [.basic key, value] := by
  simp only [popDictEntry, popContainer_eq_some_iff]
  constructor
  · rintro ⟨value, rfl, typed, rfl⟩
    cases value with
    | basic value => cases value <;> cases typed
    | dictEntry key value => exact ⟨key, value, rfl, rfl⟩
    | array | struct | variant => cases typed
  · rintro ⟨key, value, rfl, rfl⟩
    exact ⟨.dictEntry key value, rfl, rfl, rfl⟩

theorem size_pos (value : Value) : 0 < value.size := by
  cases value <;> simp only [Value.size] <;> omega

/-- What a container holds is smaller than it. -/
theorem sizes_contents_lt (value : Value) : sizes value.contents < value.size := by
  cases value <;> simp only [Value.contents, Value.size, sizes] <;> omega

theorem length_le_sizes (reader : Reader) : reader.length ≤ sizes reader := by
  induction reader with
  | nil => exact Nat.le_refl 0
  | cons value rest ih =>
    have positive := size_pos value
    rw [List.length_cons, sizes]
    omega

theorem size_le_sizes {value : Value} {reader : Reader} (member : value ∈ reader) : value.size ≤ sizes reader := by
  induction member with
  | head rest => exact Nat.le_add_right _ _
  | tail first later ih => exact Nat.le_trans ih (Nat.le_add_left _ _)

/-- Behind a container, and inside it, there is less than before. -/
theorem sizes_of_popContainer {dbus_type : DataType} {reader sub rest : Reader}
    (popped : popContainer dbus_type reader = some (sub, rest)) :
    sizes sub < sizes reader ∧ sizes rest < sizes reader := by
  obtain ⟨value, rfl, -, rfl⟩ := popContainer_eq_some_iff.mp popped
  have inside := sizes_contents_lt value
  rw [sizes]
  omega

end Reading

section Ending

variable {fuel : Nat} {reader : Reader}

theorem popArrayOf_ends (pop : Reader → Option (String × Reader))
    (advances : ∀ {reader text rest}, pop reader = some (text, rest) → ∃ value, reader = value :: rest)
    (enough : sizes reader < fuel) : Ends (popArrayOf pop fuel reader) fun _ => True := by
  unfold popArrayOf
  split
  next => exact Ends.pure trivial
  next elements rest popped =>
    rw [popArray_eq_some_iff] at popped
    subst popped
    have short := length_le_sizes elements
    rw [sizes, Value.size] at enough
    apply whileMore_ends (fun _ => True) (by omega) trivial
    · intro item _ rest strings _
      split
      next => exact Ends.pure trivial
      next text remaining taken =>
        obtain ⟨value, same⟩ := advances taken
        cases same
        exact Ends.pure ⟨rfl, trivial⟩
    · exact fun _ _ => trivial

theorem popArrayOfStrings_ends (enough : sizes reader < fuel) : Ends (popArrayOfStrings fuel reader) fun _ => True :=
  popArrayOf_ends popString (fun taken => ⟨_, popString_eq_some_iff.mp taken⟩) enough

theorem popArrayOfObjectPaths_ends (enough : sizes reader < fuel) :
    Ends (popArrayOfObjectPaths fuel reader) fun _ => True :=
  popArrayOf_ends popObjectPath (fun taken => ⟨_, popObjectPath_eq_some_iff.mp taken⟩) enough

theorem leaves_of_container {value : Value} (container : ∀ basic, value ≠ .basic basic) :
    value.leaves = leavesOf value.contents := by
  cases value with
  | basic basic => exact absurd rfl (container basic)
  | dictEntry | variant => simp only [Value.leaves, Value.contents, leavesOf, List.singleton_append, List.append_nil]
  | array | struct => rfl

/-- A round of printing. -/
def printLeaves (_ : Unit) (value : Value) : Option Unit := if value.leaves.all Basic.printed then some () else none

theorem foldlM_printLeaves (reader : Reader) :
    (reader.foldlM printLeaves ()).elim false (fun _ => true) = (leavesOf reader).all Basic.printed := by
  induction reader with
  | nil => rfl
  | cons value rest ih =>
    rw [List.foldlM_cons, printLeaves, leavesOf, List.all_append, ← ih]
    cases value.leaves.all Basic.printed <;> rfl

/-- Printing survives where all leaves are printed. -/
theorem toStringInternal_survives (enough : sizes reader < fuel) :
    Ends (toStringInternal fuel reader) (· = (leavesOf reader).all Basic.printed) := by
  induction fuel generalizing reader with
  | zero => omega
  | succ fuel ih =>
    have short := length_le_sizes reader
    rw [toStringInternal]
    refine Ends.mono (whileMore_folds printLeaves false (by omega) ?_) fun survived same =>
      same.trans (foldlM_printLeaves reader)
    intro item member rest _
    have inner : Ends (toStringInternal fuel item.contents) (· = (leavesOf item.contents).all Basic.printed) := by
      have below := sizes_contents_lt item
      have inside := size_le_sizes member
      exact ih (by omega)
    cases item with
    | basic value => cases value <;> exact Ends.pure rfl
    | array | struct | dictEntry | variant =>
      rw [printLeaves, leaves_of_container (by simp)]
      refine Ends.bind inner ?_
      rintro survived rfl
      split
      next printed => exact Ends.pure rfl
      next => exact Ends.pure rfl

theorem toStringInternal_ends (enough : sizes reader < fuel) : Ends (toStringInternal fuel reader) fun _ => True :=
  Ends.mono (toStringInternal_survives enough) fun _ _ => trivial

end Ending

/-!
# The properties of an interface (`property.cc`)

The callback for changed properties is outside, and is modelled by the names that it receives.
-/

open Library

def popVariantOfByte : Reader → Option Basic × Reader := popVariantOfBasic .byte

/-- `PopVariantOfBool`, which writes false where it fails. -/
def popVariantOfBool (reader : Reader) : Bool × Basic × Reader :=
  match popVariantOfBasic .boolean reader with
  | (none, reader) => (false, .boolean false, reader)
  | (some value, reader) => (true, value, reader)

def popVariantOfInt16 : Reader → Option Basic × Reader := popVariantOfBasic .int16
def popVariantOfUint16 : Reader → Option Basic × Reader := popVariantOfBasic .uint16
def popVariantOfInt32 : Reader → Option Basic × Reader := popVariantOfBasic .int32
def popVariantOfUint32 : Reader → Option Basic × Reader := popVariantOfBasic .uint32
def popVariantOfInt64 : Reader → Option Basic × Reader := popVariantOfBasic .int64
def popVariantOfUint64 : Reader → Option Basic × Reader := popVariantOfBasic .uint64
def popVariantOfDouble : Reader → Option Basic × Reader := popVariantOfBasic .double
def popVariantOfString : Reader → Option Basic × Reader := popVariantOfBasic .string
def popVariantOfObjectPath : Reader → Option Basic × Reader := popVariantOfBasic .objectPath

/-- The specializations of `Property<T>`. -/
inductive PropertyKind where
  | byte
  | bool
  | int16
  | uint16
  | int32
  | uint32
  | int64
  | uint64
  | double
  | string
  | objectPath
  | strings
  | objectPaths
  | bytes
  | stringMap
  | bytesAndUint16s
deriving DecidableEq

/-- `value_`. -/
inductive PropertyValue where
  | basic (value : Basic)
  | texts (values : List String)
  | bytes (values : List UInt8)
  | stringMap (entries : OrderedMap String String)
  | bytesAndUint16s (entries : List (List UInt8 × UInt16))

/-- The value where a basic one was popped, and the old one elsewhere. -/
def orOld (value : PropertyValue) : Option Basic × Reader → Bool × PropertyValue × Reader
  | (none, reader) => (false, value, reader)
  | (some popped, reader) => (true, .basic popped, reader)

/-- `PopValueFromReader` of the vectors of strings and of object paths. -/
def popTextsFromReader (pop : Nat → Reader → Walk (Bool × List String × Reader)) (fuel : Nat) (value : PropertyValue)
    (reader : Reader) : Walk (Bool × PropertyValue × Reader) :=
  match popVariant reader with
  | none => pure (false, value, reader)
  | some (variant_reader, reader) => do
    let (popped, texts, _) ← pop fuel variant_reader
    pure (popped, .texts texts, reader)

/-- `PopValueFromReader` of a vector of bytes. -/
def popBytesFromReader (value : PropertyValue) (reader : Reader) : Bool × PropertyValue × Reader :=
  match popVariant reader with
  | none => (false, value, reader)
  | some (variant_reader, reader) =>
    match (popArrayOfBytes variant_reader).1 with
    | none => (false, .bytes [], reader)
    | some bytes => (true, .bytes bytes, reader)

/-- `PopValueFromReader` of a map of strings. -/
def popStringMapFromReader (fuel : Nat) (value : PropertyValue) (reader : Reader) :
    Walk (Bool × PropertyValue × Reader) :=
  match popVariant reader with
  | none => pure (false, value, reader)
  | some (variant_reader, reader) =>
    match popArray variant_reader with
    | none => pure (false, value, reader)
    | some (array_reader, _) =>
      whileMore
        (fun array_reader entries =>
          match popDictEntry array_reader with
          | none => pure (.leave (false, .stringMap entries, reader))
          | some (dict_entry_reader, array_reader) =>
            match popString dict_entry_reader with
            | none => pure (.leave (false, .stringMap entries, reader))
            | some (key, dict_entry_reader) =>
              match popString dict_entry_reader with
              | none => pure (.leave (false, .stringMap entries, reader))
              | some (text, _) => pure (.again array_reader (entries.update key fun _ => text)))
        (fun entries => (true, .stringMap entries, reader)) fuel array_reader OrderedMap.empty

/-- `PopValueFromReader` of a vector of pairs. -/
def popPairsFromReader (fuel : Nat) (value : PropertyValue) (reader : Reader) : Walk (Bool × PropertyValue × Reader) :=
  match popVariant reader with
  | none => pure (false, value, reader)
  | some (variant_reader, reader) =>
    match popArray variant_reader with
    | none => pure (false, value, reader)
    | some (array_reader, _) =>
      whileMore
        (fun array_reader entries =>
          match popStruct array_reader with
          | none => pure (.leave (false, .bytesAndUint16s entries, reader))
          | some (struct_reader, array_reader) =>
            match popArrayOfBytes struct_reader with
            | (none, _) => pure (.leave (false, .bytesAndUint16s entries, reader))
            | (some bytes, struct_reader) =>
              match popUint16 struct_reader with
              | none => pure (.leave (false, .bytesAndUint16s entries, reader))
              | some (number, _) => pure (.again array_reader (entries ++ [(bytes, number)])))
        (fun entries => (true, .bytesAndUint16s entries, reader)) fuel array_reader []

/-- `PopValueFromReader`: whether it succeeds, the value and the iterator. -/
def popValueFromReader (fuel : Nat) (kind : PropertyKind) (value : PropertyValue) (reader : Reader) :
    Walk (Bool × PropertyValue × Reader) :=
  match kind with
  | .byte => pure (orOld value (popVariantOfByte reader))
  | .bool =>
    let (popped, flag, reader) := popVariantOfBool reader
    pure (popped, .basic flag, reader)
  | .int16 => pure (orOld value (popVariantOfInt16 reader))
  | .uint16 => pure (orOld value (popVariantOfUint16 reader))
  | .int32 => pure (orOld value (popVariantOfInt32 reader))
  | .uint32 => pure (orOld value (popVariantOfUint32 reader))
  | .int64 => pure (orOld value (popVariantOfInt64 reader))
  | .uint64 => pure (orOld value (popVariantOfUint64 reader))
  | .double => pure (orOld value (popVariantOfDouble reader))
  | .string => pure (orOld value (popVariantOfString reader))
  | .objectPath => pure (orOld value (popVariantOfObjectPath reader))
  | .strings => popTextsFromReader popArrayOfStrings fuel value reader
  | .objectPaths => popTextsFromReader popArrayOfObjectPaths fuel value reader
  | .bytes => pure (popBytesFromReader value reader)
  | .stringMap => popStringMapFromReader fuel value reader
  | .bytesAndUint16s => popPairsFromReader fuel value reader

/-- `PropertyBase`. -/
structure Property where
  kind : PropertyKind
  name : String
  is_valid : Bool
  value : PropertyValue

/-- `PropertySet`, with the names that its callback has received. -/
structure PropertySet where
  interface : String
  properties_map : OrderedMap String Property
  has_callback : Bool
  changed : List String

namespace PropertySet

def notifyPropertyChanged (set : PropertySet) (name : String) : PropertySet :=
  if set.has_callback then { set with changed := set.changed ++ [name] } else set

def store (set : PropertySet) (name : String) (property : Property) : PropertySet :=
  { set with properties_map := set.properties_map.update name fun _ => property }

def updatePropertyFromReader (fuel : Nat) (set : PropertySet) (reader : Reader) : Walk (Bool × PropertySet) :=
  match popString reader with
  | none => pure (false, set)
  | some (name, reader) =>
    match set.properties_map.find name with
    | none => pure (false, set)
    | some property => do
      let (popped, value, _) ← popValueFromReader fuel property.kind property.value reader
      if popped then
        pure (true, (set.store name { property with value, is_valid := true }).notifyPropertyChanged name)
      else if property.is_valid then
        pure (false, (set.store name { property with value, is_valid := false }).notifyPropertyChanged property.name)
      else pure (false, set.store name { property with value })

/-- `UpdatePropertiesFromReader`, whose loop goes on with the same element where it is no dict entry. -/
def updatePropertiesFromReader (fuel : Nat) (set : PropertySet) (reader : Reader) :
    Walk (Bool × PropertySet × Reader) :=
  match popArray reader with
  | none => pure (false, set, reader)
  | some (array_reader, reader) =>
    whileMore
      (fun array_reader set =>
        match popDictEntry array_reader with
        | none => pure (.again array_reader set)
        | some (dict_entry_reader, array_reader) => do
          let (_, set) ← updatePropertyFromReader fuel set dict_entry_reader
          pure (.again array_reader set))
      (fun set => (true, set, reader)) fuel array_reader set

def invalidatePropertiesFromReader (fuel : Nat) (set : PropertySet) (reader : Reader) :
    Walk (Bool × PropertySet × Reader) :=
  match popArray reader with
  | none => pure (false, set, reader)
  | some (array_reader, reader) =>
    whileMore
      (fun array_reader set =>
        match popString array_reader with
        | none => pure (.leave (false, set, reader))
        | some (name, array_reader) =>
          match set.properties_map.find name with
          | none => pure (.again array_reader set)
          | some property =>
            if property.is_valid then
              let set := set.store name { property with is_valid := false }
              pure (.again array_reader (set.notifyPropertyChanged property.name))
            else pure (.again array_reader set))
      (fun set => (true, set, reader)) fuel array_reader set

end PropertySet

/-- How a handler ends: it returns, or the process does not survive the text of a warning. -/
inductive Ending (σ : Type) where
  | returned (state : σ)
  | aborted

/-- `LOG(WARNING) << ToString()`, where warnings are logged: `false` where it aborts. -/
def logWarning (logged : Bool) (fuel : Nat) (arguments : Reader) : Walk Bool :=
  if logged then toStringInternal fuel arguments else pure true

/-- The warning where an argument was not as expected. -/
def warnUnless (fine logged : Bool) (fuel : Nat) (arguments : Reader) : Walk Bool :=
  if fine then pure true else logWarning logged fuel arguments

def endWith {σ : Type} (survives : Bool) (state : σ) : Ending σ :=
  if survives then .returned state else .aborted

namespace PropertySet

/-- `ChangedReceived`. -/
def changedReceived (logged : Bool) (fuel : Nat) (set : PropertySet) (signal : Reader) : Walk (Ending PropertySet) :=
  match popString signal with
  | none => do
    let survives ← logWarning logged fuel signal
    pure (endWith survives set)
  | some (interface, reader) =>
    if interface ≠ set.interface then pure (.returned set)
    else do
      let (updated, set, reader) ← updatePropertiesFromReader fuel set reader
      let survives ← warnUnless updated logged fuel signal
      if survives then
        let (invalidated, set, _) ← invalidatePropertiesFromReader fuel set reader
        let survives ← warnUnless invalidated logged fuel signal
        pure (endWith survives set)
      else pure .aborted

/-- `OnGetAll`; there is no response where the call failed. -/
def onGetAll (logged : Bool) (fuel : Nat) (set : PropertySet) (response : Option Reader) : Walk (Ending PropertySet) :=
  match response with
  | none => pure (.returned set)
  | some arguments => do
    let (updated, set, _) ← updatePropertiesFromReader fuel set arguments
    let survives ← warnUnless updated logged fuel arguments
    pure (endWith survives set)

end PropertySet

/-- An element that `PopDictEntry` takes. -/
def Value.IsDictEntry : Value → Prop
  | .dictEntry _ _ => True
  | _ => False

/-- Where an array comes first, its elements are dict entries. -/
def PropertiesFit (reader : Reader) : Prop :=
  ∀ elements rest, reader = .array elements :: rest → ∀ element ∈ elements, element.IsDictEntry

section Ending

variable {logged : Bool} {fuel : Nat} {set : PropertySet} {reader sub rest : Reader}

theorem popTextsFromReader_ends {pop : Nat → Reader → Walk (Bool × List String × Reader)}
    (pops : ∀ {reader}, sizes reader < fuel → Ends (pop fuel reader) fun _ => True) (value : PropertyValue)
    (enough : sizes reader < fuel) : Ends (popTextsFromReader pop fuel value reader) fun _ => True := by
  unfold popTextsFromReader
  split
  next => exact Ends.pure trivial
  next inner rest popped =>
    have smaller := (sizes_of_popContainer popped).1
    exact Ends.bind (pops (by omega)) fun _ _ => Ends.pure trivial

/-- A pop of the elements of the array in a variant. -/
def overElements {σ : Type} (body : Reader → List Value → σ → Walk (Round Value σ (Bool × PropertyValue × Reader)))
    (wrap : σ → PropertyValue) (state : σ) (fuel : Nat) (value : PropertyValue) (reader : Reader) :
    Walk (Bool × PropertyValue × Reader) :=
  match popVariant reader with
  | none => pure (false, value, reader)
  | some (variant_reader, reader) =>
    match popArray variant_reader with
    | none => pure (false, value, reader)
    | some (array_reader, _) =>
      whileMore (body reader) (fun state => (true, wrap state, reader)) fuel array_reader state

theorem overElements_ends {σ : Type}
    {body : Reader → List Value → σ → Walk (Round Value σ (Bool × PropertyValue × Reader))}
    (wrap : σ → PropertyValue) (state : σ) (value : PropertyValue) (enough : sizes reader < fuel)
    (round : ∀ reader item rest state,
      Ends (body reader (item :: rest) state) (Advances (fun _ => True) (fun _ => True) rest)) :
    Ends (overElements body wrap state fuel value reader) fun _ => True := by
  unfold overElements
  split
  next => exact Ends.pure trivial
  next inner behind popped =>
    split
    next => exact Ends.pure trivial
    next elements _ array =>
      have smaller := (sizes_of_popContainer popped).1
      have smallest := (sizes_of_popContainer array).1
      have short := length_le_sizes elements
      exact whileMore_ends (fun _ => True) (by omega) trivial (fun item _ rest state _ => round behind item rest state)
        fun _ _ => trivial

theorem popStringMapFromReader_ends (value : PropertyValue) (enough : sizes reader < fuel) :
    Ends (popStringMapFromReader fuel value reader) fun _ => True := by
  refine overElements_ends .stringMap .empty value enough fun behind item rest entries => ?_
  split
  next => exact Ends.pure trivial
  next entry remaining taken =>
    obtain ⟨key, text, same, -⟩ := popDictEntry_eq_some_iff.mp taken
    cases same
    split
    next => exact Ends.pure trivial
    next =>
      split
      next => exact Ends.pure trivial
      next => exact Ends.pure ⟨rfl, trivial⟩

theorem popPairsFromReader_ends (value : PropertyValue) (enough : sizes reader < fuel) :
    Ends (popPairsFromReader fuel value reader) fun _ => True := by
  refine overElements_ends .bytesAndUint16s [] value enough fun behind item rest entries => ?_
  split
  next => exact Ends.pure trivial
  next fields remaining taken =>
    obtain ⟨value, same, -⟩ := popContainer_eq_some_iff.mp taken
    cases same
    split
    next => exact Ends.pure trivial
    next =>
      split
      next => exact Ends.pure trivial
      next => exact Ends.pure ⟨rfl, trivial⟩

theorem popValueFromReader_ends (kind : PropertyKind) (value : PropertyValue) (enough : sizes reader < fuel) :
    Ends (popValueFromReader fuel kind value reader) fun _ => True := by
  cases kind with
  | strings => exact popTextsFromReader_ends popArrayOfStrings_ends value enough
  | objectPaths => exact popTextsFromReader_ends popArrayOfObjectPaths_ends value enough
  | stringMap => exact popStringMapFromReader_ends value enough
  | bytesAndUint16s => exact popPairsFromReader_ends value enough
  | byte | bool | int16 | uint16 | int32 | uint32 | int64 | uint64 | double | string | objectPath | bytes =>
    exact Ends.pure trivial

theorem updatePropertyFromReader_ends (enough : sizes reader < fuel) :
    Ends (set.updatePropertyFromReader fuel reader) fun _ => True := by
  unfold PropertySet.updatePropertyFromReader
  split
  next => exact Ends.pure trivial
  next name rest popped =>
    rw [popString_eq_some_iff] at popped
    subst popped
    rw [sizes] at enough
    split
    next => exact Ends.pure trivial
    next property _ =>
      refine Ends.bind (popValueFromReader_ends property.kind property.value (by omega)) ?_
      intro outcome _
      dsimp only
      split
      next => exact Ends.pure trivial
      next =>
        split
        next => exact Ends.pure trivial
        next => exact Ends.pure trivial

/-- A property that arrives is stored, or it is left as it is. -/
theorem updatePropertiesFromReader_ends (fit : PropertiesFit reader) (enough : sizes reader < fuel) :
    Ends (set.updatePropertiesFromReader fuel reader) fun updated => sizes updated.2.2 < fuel := by
  unfold PropertySet.updatePropertiesFromReader
  split
  next => exact Ends.pure enough
  next elements rest popped =>
    rw [popArray_eq_some_iff] at popped
    subst popped
    rw [sizes, Value.size] at enough
    have short := length_le_sizes elements
    apply whileMore_ends (fun _ => True) (by omega) trivial
    · intro item member rest set _
      split
      next missed =>
        have entry := fit elements _ rfl item member
        cases item with
        | dictEntry key value => cases missed
        | basic | array | struct | variant => exact entry.elim
      next entry remaining taken =>
        obtain ⟨key, value, same, rfl⟩ := popDictEntry_eq_some_iff.mp taken
        cases same
        have inside := size_le_sizes member
        rw [Value.size] at inside
        have below : sizes [.basic key, value] < fuel := by
          simp only [sizes, Value.size]
          omega
        exact Ends.bind (updatePropertyFromReader_ends below) fun _ _ => Ends.pure ⟨rfl, trivial⟩
    · intro set _
      dsimp only
      omega

/-- The loop over the properties comes to its end only past dict entries. -/
theorem updatePropertiesFromReader_leaves :
    Leaves (set.updatePropertiesFromReader fuel reader) fun _ => PropertiesFit reader := by
  unfold PropertySet.updatePropertiesFromReader
  split
  next missed =>
    refine Leaves.pure ?_
    intro elements rest same
    rw [same] at missed
    cases missed
  next elements rest popped =>
    rw [popArray_eq_some_iff] at popped
    subst popped
    refine Leaves.mono (whileMore_leaves Value.IsDictEntry (fun _ => True) (fun _ => True) trivial ?_ ?_) ?_
    · intro item rest set _
      split
      next => exact Leaves.pure ⟨Or.inr rfl, trivial⟩
      next entry remaining taken =>
        obtain ⟨key, value, same, rfl⟩ := popDictEntry_eq_some_iff.mp taken
        cases same
        exact Leaves.bind (Leaves.any _) fun _ _ => Leaves.pure ⟨Or.inl ⟨rfl, trivial⟩, trivial⟩
    · exact fun _ _ => trivial
    · intro _ all others rest same
      cases same
      exact all.1

theorem invalidatePropertiesFromReader_ends (enough : sizes reader < fuel) :
    Ends (set.invalidatePropertiesFromReader fuel reader) fun _ => True := by
  unfold PropertySet.invalidatePropertiesFromReader
  split
  next => exact Ends.pure trivial
  next elements rest popped =>
    have smaller := (sizes_of_popContainer popped).1
    have short := length_le_sizes elements
    apply whileMore_ends (fun _ => True) (by omega) trivial
    · intro item _ rest set _
      split
      next => exact Ends.pure trivial
      next name remaining taken =>
        rw [popString_eq_some_iff] at taken
        cases taken
        split
        next => exact Ends.pure ⟨rfl, trivial⟩
        next =>
          split
          next => exact Ends.pure ⟨rfl, trivial⟩
          next => exact Ends.pure ⟨rfl, trivial⟩
    · exact fun _ _ => trivial

theorem logWarning_ends (enough : sizes reader < fuel) : Ends (logWarning logged fuel reader) fun _ => True := by
  unfold logWarning
  split
  next => exact toStringInternal_ends enough
  next => exact Ends.pure trivial

theorem warnUnless_ends (fine : Bool) (enough : sizes reader < fuel) :
    Ends (warnUnless fine logged fuel reader) fun _ => True := by
  unfold warnUnless
  split
  next => exact Ends.pure trivial
  next => exact logWarning_ends enough

/-- It ends exactly where the properties of its own interface can be consumed. -/
theorem PropertySet.changedReceived_terminates_iff {signal : Reader} :
    Terminates (fun fuel => set.changedReceived logged fuel signal) ↔
      ∀ rest, signal = .basic (.string set.interface) :: rest → PropertiesFit rest := by
  constructor
  · rintro ⟨fuel, ended⟩ rest rfl
    have popped : popString (.basic (.string set.interface) :: rest) = some (set.interface, rest) :=
      popString_eq_some_iff.mpr rfl
    simp only [PropertySet.changedReceived, popped, ne_eq, not_true_eq_false, if_false] at ended
    exact (ended.first updatePropertiesFromReader_leaves).choose_spec
  · intro fits
    refine ⟨sizes signal + 1, ?_⟩
    have enough := Nat.lt_succ_self (sizes signal)
    unfold PropertySet.changedReceived
    split
    next => exact Ends.bind (logWarning_ends enough) fun _ _ => Ends.pure trivial
    next interface rest popped =>
      rw [popString_eq_some_iff] at popped
      split
      next => exact Ends.pure trivial
      next own =>
        rw [not_ne_iff] at own
        subst own
        have within : sizes rest < sizes signal + 1 := by
          rw [popped, sizes]
          omega
        refine Ends.bind (updatePropertiesFromReader_ends (fits rest popped) within) ?_
        intro updated smaller
        refine Ends.bind (warnUnless_ends updated.1 enough) ?_
        intro survives _
        split
        next =>
          refine Ends.bind (invalidatePropertiesFromReader_ends smaller) ?_
          intro invalidated _
          exact Ends.bind (warnUnless_ends invalidated.1 enough) fun _ _ => Ends.pure trivial
        next => exact Ends.pure trivial

theorem PropertySet.onGetAll_terminates_iff {response : Option Reader} :
    Terminates (fun fuel => set.onGetAll logged fuel response) ↔ ∀ arguments ∈ response, PropertiesFit arguments := by
  cases response with
  | none => exact ⟨fun _ _ member => (Option.not_mem_none _ member).elim, fun _ => ⟨0, Ends.pure trivial⟩⟩
  | some arguments =>
    simp only [Option.mem_some_iff, forall_eq']
    constructor
    · rintro ⟨fuel, ended⟩
      exact (ended.first updatePropertiesFromReader_leaves).choose_spec
    · intro fit
      have enough := Nat.lt_succ_self (sizes arguments)
      refine ⟨sizes arguments + 1, Ends.bind (updatePropertiesFromReader_ends fit enough) ?_⟩
      intro updated _
      exact Ends.bind (warnUnless_ends updated.1 enough) fun _ _ => Ends.pure trivial

end Ending

end Libchrome.Dbus
