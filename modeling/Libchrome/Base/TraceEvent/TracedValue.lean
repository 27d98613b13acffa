import Libchrome.Base.Json.Value
import Libchrome.Base.PickleCopies
import Libchrome.Base.PickleReading

/-!
# Traced values (`trace_event_argument.cc`)

The calls on a `TracedValue` write a pickle, and `ToBaseValue` reads a tree out of it. A name that is
not copied is an address, and `strings` gives the C string at an address.
-/

namespace Libchrome.Base.TraceEvent.TracedValue
open Library.Bytes Json

/-- `std::isfinite`, of the bits of a `double`. -/
def isFinite (bits : BitVec 64) : Bool := bits.extractLsb' 52 11 ≠ 0x7ff

/-- The `double` of a `FundamentalValue`. -/
abbrev FiniteDouble := { bits : BitVec 64 // isFinite bits = true }

/-- `FundamentalValue(double)`, which makes 0 of what is not finite. -/
def fundamentalDouble (bits : BitVec 64) : FiniteDouble :=
  if finite : isFinite bits = true then ⟨bits, finite⟩ else ⟨0, by decide⟩

abbrev BaseValue := Value FiniteDouble

def kTypeStartDict : Byte := 0x7b
def kTypeEndDict : Byte := 0x7d
def kTypeStartArray : Byte := 0x5b
def kTypeEndArray : Byte := 0x5d
def kTypeBool : Byte := 0x62
def kTypeInt : Byte := 0x69
def kTypeDouble : Byte := 0x64
def kTypeString : Byte := 0x73
def kTypeCStr : Byte := 0x2a

/-- What the calls for single values take. -/
inductive Scalar where
  | boolean (value : Bool)
  | integer (value : Int32)
  | double (bits : BitVec 64)
  | string (value : List Byte)

def Scalar.type : Scalar → Byte
  | .boolean _ => kTypeBool
  | .integer _ => kTypeInt
  | .double _ => kTypeDouble
  | .string _ => kTypeString

section Writing
variable (garbage : Nat → Nat → Byte)
open Pickle

def writeType (type : Byte) : Writer Bool := writeBytes garbage [type] 1

def writeKeyNameAsRawPtr (ptr : BitVec 64) : Writer Bool := do
  let _ ← writeType garbage kTypeCStr
  writeUInt64 garbage ptr

def writeKeyNameWithCopy (str : List Byte) : Writer Bool := do
  let _ ← writeType garbage kTypeString
  writeString garbage str

def Scalar.write : Scalar → Writer Bool
  | .boolean value => writeBool garbage value
  | .integer value => writeInt garbage value.toBitVec
  | .double bits => writePOD garbage 8 bits.toNat
  | .string value => writeString garbage value

/-- The body of the `Set` calls, with the write of the name. -/
def setScalar (writeKeyName : Writer Bool) (scalar : Scalar) : Writer Bool := do
  let _ ← writeType garbage scalar.type
  let _ ← scalar.write garbage
  writeKeyName

def setInteger (name : BitVec 64) (value : Int32) : Writer Bool :=
  setScalar garbage (writeKeyNameAsRawPtr garbage name) (.integer value)

def setIntegerWithCopiedName (name : List Byte) (value : Int32) : Writer Bool :=
  setScalar garbage (writeKeyNameWithCopy garbage name) (.integer value)

def setDouble (name : BitVec 64) (value : BitVec 64) : Writer Bool :=
  setScalar garbage (writeKeyNameAsRawPtr garbage name) (.double value)

def setDoubleWithCopiedName (name : List Byte) (value : BitVec 64) : Writer Bool :=
  setScalar garbage (writeKeyNameWithCopy garbage name) (.double value)

def setBoolean (name : BitVec 64) (value : Bool) : Writer Bool :=
  setScalar garbage (writeKeyNameAsRawPtr garbage name) (.boolean value)

def setBooleanWithCopiedName (name : List Byte) (value : Bool) : Writer Bool :=
  setScalar garbage (writeKeyNameWithCopy garbage name) (.boolean value)

def setString (name : BitVec 64) (value : List Byte) : Writer Bool :=
  setScalar garbage (writeKeyNameAsRawPtr garbage name) (.string value)

def setStringWithCopiedName (name : List Byte) (value : List Byte) : Writer Bool :=
  setScalar garbage (writeKeyNameWithCopy garbage name) (.string value)

/-- The body of the `Append` calls. -/
def appendScalar (scalar : Scalar) : Writer Bool := do
  let _ ← writeType garbage scalar.type
  scalar.write garbage

def appendInteger (value : Int32) : Writer Bool := appendScalar garbage (.integer value)
def appendDouble (value : BitVec 64) : Writer Bool := appendScalar garbage (.double value)
def appendBoolean (value : Bool) : Writer Bool := appendScalar garbage (.boolean value)
def appendString (value : List Byte) : Writer Bool := appendScalar garbage (.string value)

def beginDictionary (name : BitVec 64) : Writer Bool := do
  let _ ← writeType garbage kTypeStartDict
  writeKeyNameAsRawPtr garbage name

def beginDictionaryWithCopiedName (name : List Byte) : Writer Bool := do
  let _ ← writeType garbage kTypeStartDict
  writeKeyNameWithCopy garbage name

def beginArray (name : BitVec 64) : Writer Bool := do
  let _ ← writeType garbage kTypeStartArray
  writeKeyNameAsRawPtr garbage name

def beginArrayWithCopiedName (name : List Byte) : Writer Bool := do
  let _ ← writeType garbage kTypeStartArray
  writeKeyNameWithCopy garbage name

/-- `BeginDictionary()`, inside an array. -/
def beginUnnamedDictionary : Writer Bool := writeType garbage kTypeStartDict

/-- `BeginArray()`, inside an array. -/
def beginUnnamedArray : Writer Bool := writeType garbage kTypeStartArray

def endDictionary : Writer Bool := writeType garbage kTypeEndDict

def endArray : Writer Bool := writeType garbage kTypeEndArray

/-- `SetValue` of the pickle of another traced value. -/
def setValue (name : BitVec 64) (value : Pickle) : Writer Bool := do
  let _ ← beginDictionary garbage name
  let _ ← writeBytes garbage value.payload (BitVec.ofNat 32 value.payload_size)
  endDictionary garbage

def setValueWithCopiedName (name : List Byte) (value : Pickle) : Writer Bool := do
  let _ ← beginDictionaryWithCopiedName garbage name
  let _ ← writeBytes garbage value.payload (BitVec.ofNat 32 value.payload_size)
  endDictionary garbage

mutual

/-- A null and a binary value are not written. -/
def setBaseValueWithCopiedName (name : List Byte) : BaseValue → Writer Bool
  | .null => pure true
  | .binary _ => pure true
  | .boolean value => setBooleanWithCopiedName garbage name value
  | .integer value => setIntegerWithCopiedName garbage name value
  | .double value => setDoubleWithCopiedName garbage name value.1
  | .string value => setStringWithCopiedName garbage name value
  | .dictionary entries => do
    let _ ← beginDictionaryWithCopiedName garbage name
    let _ ← setEntries entries
    endDictionary garbage
  | .list items => do
    let _ ← beginArrayWithCopiedName garbage name
    let _ ← appendItems items
    endArray garbage

def appendBaseValue : BaseValue → Writer Bool
  | .null => pure true
  | .binary _ => pure true
  | .boolean value => appendBoolean garbage value
  | .integer value => appendInteger garbage value
  | .double value => appendDouble garbage value.1
  | .string value => appendString garbage value
  | .dictionary entries => do
    let _ ← beginUnnamedDictionary garbage
    let _ ← setEntries entries
    endDictionary garbage
  | .list items => do
    let _ ← beginUnnamedArray garbage
    let _ ← appendItems items
    endArray garbage

/-- The loop over a dictionary. -/
def setEntries : List (List Byte × BaseValue) → Writer Bool
  | [] => pure true
  | (key, value) :: rest => do
    let _ ← setBaseValueWithCopiedName key value
    setEntries rest

/-- The loop over a list. -/
def appendItems : List BaseValue → Writer Bool
  | [] => pure true
  | item :: rest => do
    let _ ← appendBaseValue item
    appendItems rest

end

/-- `TracedValue(size_t capacity)`. -/
def create (capacity : Nat) : Option Pickle := do
  let pickle ← Pickle.new garbage sizeofHeader
  if capacity = 0 then return pickle
  else
    let (_, pickle) ← reserve garbage capacity pickle
    return pickle

end Writing

/-- A name that lives long enough, or one that is copied. -/
inductive Name where
  | literal (ptr : BitVec 64)
  | copied (str : List Byte)

/-- A call on a traced value. The value of `setValue` is another one with a capacity and its calls; the name of
`setBaseValue` is a literal in `SetValue(const char*, scoped_ptr<base::Value>)`. -/
inductive Call where
  | set (name : Name) (scalar : Scalar)
  | setValue (name : Name) (capacity : Nat) (calls : List Call)
  | setBaseValue (name : Name) (value : BaseValue)
  | beginDictionary (name : Name)
  | beginArray (name : Name)
  | endDictionary
  | append (scalar : Scalar)
  | appendBaseValue (value : BaseValue)
  | beginUnnamedDictionary
  | beginUnnamedArray
  | endArray

section Calls
variable (garbage : Nat → Nat → Byte) (strings : BitVec 64 → List Byte)
open Pickle

def Name.text : Name → List Byte
  | .literal ptr => strings ptr
  | .copied str => str

def Name.set : Name → Scalar → Writer Bool
  | .literal name, .boolean value => setBoolean garbage name value
  | .literal name, .integer value => setInteger garbage name value
  | .literal name, .double value => setDouble garbage name value
  | .literal name, .string value => setString garbage name value
  | .copied name, .boolean value => setBooleanWithCopiedName garbage name value
  | .copied name, .integer value => setIntegerWithCopiedName garbage name value
  | .copied name, .double value => setDoubleWithCopiedName garbage name value
  | .copied name, .string value => setStringWithCopiedName garbage name value

def Scalar.append : Scalar → Writer Bool
  | .boolean value => appendBoolean garbage value
  | .integer value => appendInteger garbage value
  | .double value => appendDouble garbage value
  | .string value => appendString garbage value

def Name.setValue : Name → Pickle → Writer Bool
  | .literal name, value => TracedValue.setValue garbage name value
  | .copied name, value => setValueWithCopiedName garbage name value

def Name.beginDictionary : Name → Writer Bool
  | .literal name => TracedValue.beginDictionary garbage name
  | .copied name => beginDictionaryWithCopiedName garbage name

def Name.beginArray : Name → Writer Bool
  | .literal name => TracedValue.beginArray garbage name
  | .copied name => beginArrayWithCopiedName garbage name

mutual

def Call.exec : Call → Writer Bool
  | .set name scalar => name.set garbage scalar
  | .setValue name capacity calls => do
    let fresh ← StateT.lift (create garbage capacity)
    let (_, value) ← StateT.lift (execAll calls fresh)
    name.setValue garbage value
  | .setBaseValue name value => setBaseValueWithCopiedName garbage (name.text strings) value
  | .beginDictionary name => name.beginDictionary garbage
  | .beginArray name => name.beginArray garbage
  | .endDictionary => endDictionary garbage
  | .append scalar => scalar.append garbage
  | .appendBaseValue value => TracedValue.appendBaseValue garbage value
  | .beginUnnamedDictionary => TracedValue.beginUnnamedDictionary garbage
  | .beginUnnamedArray => TracedValue.beginUnnamedArray garbage
  | .endArray => endArray garbage

def execAll : List Call → Writer Bool
  | [] => pure true
  | call :: rest => do
    let _ ← call.exec
    execAll rest

end

/-- The pickle of a traced value after calls. -/
def traced (capacity : Nat) (calls : List Call) : Option Pickle := do
  let fresh ← create garbage capacity
  let (_, pickle) ← execAll garbage strings calls fresh
  return pickle

end Calls

/-! ### Nesting -/

/-- `kStackTypeDict` and `kStackTypeArray`. -/
inductive StackType where
  | dict
  | array
  deriving DecidableEq

mutual

/-- What the `DCHECK`s of a call demand of `nesting_stack_`, and what it pushes and pops. A value that is spliced must
be complete. -/
def Call.nest : Call → List StackType → Option (List StackType)
  | .set _ _, .dict :: outer => some (.dict :: outer)
  | .setValue _ _ calls, .dict :: outer =>
    if nestAll calls [.dict] = some [.dict] then some (.dict :: outer) else none
  | .setBaseValue _ _, .dict :: outer => some (.dict :: outer)
  | .beginDictionary _, .dict :: outer => some (.dict :: .dict :: outer)
  | .beginArray _, .dict :: outer => some (.array :: .dict :: outer)
  | .endDictionary, .dict :: outer => some outer
  | .append _, .array :: outer => some (.array :: outer)
  | .appendBaseValue _, .array :: outer => some (.array :: outer)
  | .beginUnnamedDictionary, .array :: outer => some (.dict :: .array :: outer)
  | .beginUnnamedArray, .array :: outer => some (.array :: .array :: outer)
  | .endArray, .array :: outer => some outer
  | _, _ => none

def nestAll : List Call → List StackType → Option (List StackType)
  | [], nesting => some nesting
  | call :: rest, nesting => (call.nest nesting).bind (nestAll rest)

end

/-! ### Reading -/

/-- What `cur_dict` or `cur_list` points to. -/
inductive Container where
  | dictionary (entries : List (List Byte × BaseValue))
  | list (items : List BaseValue)

/-- Where a child is in its parent. -/
inductive Place where
  | key (key : List Byte)
  | index (index : Nat)

namespace Container

def value : Container → BaseValue
  | .dictionary entries => .dictionary entries
  | .list items => .list items

/-- What was built through the pointer to a child, in its place. -/
def put : Container → Place → BaseValue → Container
  | .dictionary entries, .key key, child => .dictionary (setWithoutPathExpansion entries key child)
  | .list items, .index index, child => .list (items.set index child)
  | parent, _, _ => parent

end Container

/-- The current container and `stack`: parents, each with the place of the child that is current below it. -/
structure Machine where
  cur : Container
  stack : List (Container × Place)

/-- `root`. -/
def Machine.root (machine : Machine) : BaseValue :=
  (machine.stack.foldl (fun child parent => parent.1.put parent.2 child.value) machine.cur).value

section Reading
variable (strings : BitVec 64 → List Byte)
open PickleIterator

def readDouble : Reader (BitVec 64) := do
  return BitVec.ofNat 64 (← readBuiltinType 8)

def readKeyName (it : PickleIterator) : List Byte × PickleIterator :=
  match readBytes 1 it with
  | (none, it) => ([], it)
  | (some type, it) =>
    if type = [kTypeCStr] then
      match readUInt64 it with
      | (none, it) => (strings 0, it)
      | (some ptr_value, it) => (strings ptr_value, it)
    else if type = [kTypeString] then
      match readString it with
      | (none, it) => ([], it)
      | (some key_name, it) => (key_name, it)
    else ([], it)

/-- A new value enters the current container, under the name that is read where this is a dictionary. -/
def enter (cur : Container) (value : BaseValue) (it : PickleIterator) : Container × Place × PickleIterator :=
  match cur with
  | .dictionary entries =>
    let (key_name, it) := readKeyName strings it
    (.dictionary (setWithoutPathExpansion entries key_name value), .key key_name, it)
  | .list items => (.list (items ++ [value]), .index items.length, it)

/-- The cases for single values; the `CHECK` fails where there is nothing to read. -/
def enterRead {α : Type} (read : Reader α) (convert : α → BaseValue) (machine : Machine) (it : PickleIterator) :
    Option (Machine × PickleIterator) :=
  match read it with
  | (none, _) => none
  | (some value, it) =>
    let (cur, _, it) := enter strings machine.cur (convert value) it
    some ({ machine with cur }, it)

/-- The cases for new containers. -/
def descend (child : Container) (machine : Machine) (it : PickleIterator) : Machine × PickleIterator :=
  let (parent, place, it) := enter strings machine.cur child.value it
  (⟨child, (parent, place) :: machine.stack⟩, it)

/-- The `switch`; `none` where it leaves the program: a failed `CHECK`, and the back of an empty stack. -/
def dispatch (type : Byte) (machine : Machine) (it : PickleIterator) : Option (Machine × PickleIterator) :=
  if type = kTypeStartDict then some (descend strings (.dictionary []) machine it)
  else if type = kTypeEndArray ∨ type = kTypeEndDict then
    match machine.stack with
    | [] => none
    | (parent, place) :: stack => some (⟨parent.put place machine.cur.value, stack⟩, it)
  else if type = kTypeStartArray then some (descend strings (.list []) machine it)
  else if type = kTypeBool then enterRead strings readBool .boolean machine it
  else if type = kTypeInt then enterRead strings readInt (fun value => .integer (.ofBitVec value)) machine it
  else if type = kTypeDouble then enterRead strings readDouble (fun bits => .double (fundamentalDouble bits)) machine it
  else if type = kTypeString then enterRead strings readString .string machine it
  else some (machine, it)

def toBaseValueLoop : Nat → Machine → PickleIterator → Option BaseValue
  | 0, _, _ => none
  | fuel + 1, machine, it =>
    match readBytes 1 it with
    | (none, _) => some machine.root
    | (some type, it) =>
      match dispatch strings (type.headD 0) machine it with
      | none => none
      | some (machine, it) => toBaseValueLoop fuel machine it

/-- `ToBaseValue`; every round consumes a byte. -/
def toBaseValue (pickle : Pickle) : Option BaseValue :=
  toBaseValueLoop strings (pickle.payload_size + 1) ⟨.dictionary [], []⟩ (PickleIterator.new pickle)

end Reading

/-! What the calls on a traced value append to its pickle. -/

open Pickle

/-- The byte that a type is written as. -/
def field (type : Byte) : List Byte := padded [type]

/-- A string with its length. -/
def stringField (str : List Byte) : List Byte := encode 4 str.length ++ padded str

def Name.encoding : Name → List Byte
  | .literal ptr => field kTypeCStr ++ encode 8 ptr.toNat
  | .copied str => field kTypeString ++ stringField str

def Scalar.encoding : Scalar → List Byte
  | .boolean value => encode 4 (if value then 1 else 0)
  | .integer value => encode 4 value.toBitVec.toNat
  | .double bits => encode 8 bits.toNat
  | .string value => stringField value

/-- The body of a value between its type and its end, with the encoding of its name, if it has one. -/
def scalarEncoding (key : List Byte) (scalar : Scalar) : List Byte := field scalar.type ++ (scalar.encoding ++ key)

mutual

def valueEncoding (key : List Byte) : BaseValue → List Byte
  | .null => []
  | .binary _ => []
  | .boolean value => scalarEncoding key (.boolean value)
  | .integer value => scalarEncoding key (.integer value)
  | .double value => scalarEncoding key (.double value.1)
  | .string value => scalarEncoding key (.string value)
  | .dictionary entries => field kTypeStartDict ++ key ++ (entriesEncoding entries ++ field kTypeEndDict)
  | .list items => field kTypeStartArray ++ key ++ (itemsEncoding items ++ field kTypeEndArray)

def entriesEncoding : List (List Byte × BaseValue) → List Byte
  | [] => []
  | (key, value) :: rest => valueEncoding (Name.copied key).encoding value ++ entriesEncoding rest

def itemsEncoding : List BaseValue → List Byte
  | [] => []
  | item :: rest => valueEncoding [] item ++ itemsEncoding rest

end

section Calls
variable (strings : BitVec 64 → List Byte)

mutual

def Call.encoding : Call → List Byte
  | .set name scalar => scalarEncoding name.encoding scalar
  | .setValue name _ calls => field kTypeStartDict ++ name.encoding ++ (callsEncoding calls ++ field kTypeEndDict)
  | .setBaseValue name value => valueEncoding (Name.copied (name.text strings)).encoding value
  | .beginDictionary name => field kTypeStartDict ++ name.encoding
  | .beginArray name => field kTypeStartArray ++ name.encoding
  | .endDictionary => field kTypeEndDict
  | .append scalar => scalarEncoding [] scalar
  | .appendBaseValue value => valueEncoding [] value
  | .beginUnnamedDictionary => field kTypeStartDict
  | .beginUnnamedArray => field kTypeStartArray
  | .endArray => field kTypeEndArray

def callsEncoding : List Call → List Byte
  | [] => []
  | call :: rest => call.encoding ++ callsEncoding rest

end

/-! ### Lengths that are an `int` -/

def Name.Short : Name → Prop
  | .literal _ => True
  | .copied str => str.length < 2 ^ 31

def Scalar.Short : Scalar → Prop
  | .string value => value.length < 2 ^ 31
  | _ => True

mutual

/-- The strings and the keys in a tree are short. -/
def ShortValue : BaseValue → Prop
  | .string value => value.length < 2 ^ 31
  | .dictionary entries => ShortEntries entries
  | .list items => ShortItems items
  | _ => True

def ShortEntries : List (List Byte × BaseValue) → Prop
  | [] => True
  | (key, value) :: rest => (key.length < 2 ^ 31 ∧ ShortValue value) ∧ ShortEntries rest

def ShortItems : List BaseValue → Prop
  | [] => True
  | item :: rest => ShortValue item ∧ ShortItems rest

end

mutual

/-- The strings of a call, and the payload that it copies, are short. -/
def Call.Short : Call → Prop
  | .set name scalar => name.Short ∧ scalar.Short
  | .setValue name _ calls => name.Short ∧ ShortCalls calls ∧ (callsEncoding strings calls).length < 2 ^ 31
  | .setBaseValue name value => (name.text strings).length < 2 ^ 31 ∧ ShortValue value
  | .beginDictionary name => name.Short
  | .beginArray name => name.Short
  | .append scalar => scalar.Short
  | .appendBaseValue value => ShortValue value
  | _ => True

def ShortCalls : List Call → Prop
  | [] => True
  | call :: rest => call.Short ∧ ShortCalls rest

end

end Calls

/-! ### Writing -/

section Writing
variable (garbage : Nat → Nat → Byte)

/-- The result of the first write is not looked at. -/
theorem appends_next {first second : Writer Bool} {front back : List Byte} (one : Appends first front)
    (two : Appends second back) : Appends (do let _ ← first; second) (front ++ back) := by
  intro pickle header_size payload holds
  obtain ⟨middle, wrote, held⟩ := one pickle header_size payload holds
  obtain ⟨later, wroteMore, heldMore⟩ := two middle header_size _ held
  refine ⟨later, ?_, List.append_assoc payload front back ▸ heldMore⟩
  simp only [bind, StateT.bind, wrote, Option.bind_some]
  exact wroteMore

theorem appends_nothing : Appends (pure true) [] := by
  intro pickle header_size payload holds
  exact ⟨pickle, rfl, (List.append_nil payload).symm ▸ holds⟩

theorem appends_type (type : Byte) : Appends (writeType garbage type) (field type) :=
  appends_writeBytes garbage (show 1 < 2 ^ 31 by decide)

theorem appends_string {str : List Byte} (short : str.length < 2 ^ 31) :
    Appends (writeString garbage str) (stringField str) :=
  (PickleValue.appends_length garbage short).andThen (appends_writeBytes garbage short)

theorem appends_keyNameAsRawPtr (ptr : BitVec 64) :
    Appends (writeKeyNameAsRawPtr garbage ptr) (Name.literal ptr).encoding :=
  appends_next (appends_type garbage kTypeCStr) (PickleValue.appends_word garbage 8 ptr.toNat rfl)

theorem appends_keyNameWithCopy {str : List Byte} (short : str.length < 2 ^ 31) :
    Appends (writeKeyNameWithCopy garbage str) (Name.copied str).encoding :=
  appends_next (appends_type garbage kTypeString) (appends_string garbage short)

theorem appends_scalar {scalar : Scalar} (short : scalar.Short) :
    Appends (scalar.write garbage) scalar.encoding := by
  cases scalar with
  | boolean value => cases value <;> exact PickleValue.appends_word garbage 4 _ rfl
  | integer value => exact PickleValue.appends_word garbage 4 _ rfl
  | double bits => exact PickleValue.appends_word garbage 8 _ rfl
  | string value => exact appends_string garbage short

theorem appends_setScalar {writeKeyName : Writer Bool} {key : List Byte} (named : Appends writeKeyName key)
    {scalar : Scalar} (short : scalar.Short) :
    Appends (setScalar garbage writeKeyName scalar) (scalarEncoding key scalar) :=
  appends_next (appends_type garbage scalar.type) (appends_next (appends_scalar garbage short) named)

theorem appends_appendScalar {scalar : Scalar} (short : scalar.Short) :
    Appends (appendScalar garbage scalar) (scalarEncoding [] scalar) := by
  rw [scalarEncoding, List.append_nil]
  exact appends_next (appends_type garbage scalar.type) (appends_scalar garbage short)

mutual

theorem appends_setBaseValue {name : List Byte} (named : name.length < 2 ^ 31) : (value : BaseValue) →
    ShortValue value →
    Appends (setBaseValueWithCopiedName garbage name value) (valueEncoding (Name.copied name).encoding value)
  | .null, _ => by
    rw [setBaseValueWithCopiedName, valueEncoding]
    exact appends_nothing
  | .binary _, _ => by
    rw [setBaseValueWithCopiedName, valueEncoding]
    exact appends_nothing
  | .boolean _, _ => by
    rw [setBaseValueWithCopiedName, valueEncoding]
    exact appends_setScalar garbage (appends_keyNameWithCopy garbage named) trivial
  | .integer _, _ => by
    rw [setBaseValueWithCopiedName, valueEncoding]
    exact appends_setScalar garbage (appends_keyNameWithCopy garbage named) trivial
  | .double _, _ => by
    rw [setBaseValueWithCopiedName, valueEncoding]
    exact appends_setScalar garbage (appends_keyNameWithCopy garbage named) trivial
  | .string value, short => by
    rw [setBaseValueWithCopiedName, valueEncoding]
    rw [ShortValue] at short
    exact appends_setScalar garbage (appends_keyNameWithCopy garbage named) short
  | .dictionary entries, short => by
    rw [setBaseValueWithCopiedName, valueEncoding]
    rw [ShortValue] at short
    exact appends_next (appends_next (appends_type garbage kTypeStartDict) (appends_keyNameWithCopy garbage named))
      (appends_next (appends_setEntries entries short) (appends_type garbage kTypeEndDict))
  | .list items, short => by
    rw [setBaseValueWithCopiedName, valueEncoding]
    rw [ShortValue] at short
    exact appends_next (appends_next (appends_type garbage kTypeStartArray) (appends_keyNameWithCopy garbage named))
      (appends_next (appends_appendItems items short) (appends_type garbage kTypeEndArray))

theorem appends_appendBaseValue : (value : BaseValue) → ShortValue value →
    Appends (appendBaseValue garbage value) (valueEncoding [] value)
  | .null, _ => by
    rw [appendBaseValue, valueEncoding]
    exact appends_nothing
  | .binary _, _ => by
    rw [appendBaseValue, valueEncoding]
    exact appends_nothing
  | .boolean _, _ => by
    rw [appendBaseValue, valueEncoding]
    exact appends_appendScalar garbage trivial
  | .integer _, _ => by
    rw [appendBaseValue, valueEncoding]
    exact appends_appendScalar garbage trivial
  | .double _, _ => by
    rw [appendBaseValue, valueEncoding]
    exact appends_appendScalar garbage trivial
  | .string value, short => by
    rw [appendBaseValue, valueEncoding]
    rw [ShortValue] at short
    exact appends_appendScalar garbage short
  | .dictionary entries, short => by
    rw [appendBaseValue, valueEncoding, List.append_nil]
    rw [ShortValue] at short
    exact appends_next (appends_type garbage kTypeStartDict)
      (appends_next (appends_setEntries entries short) (appends_type garbage kTypeEndDict))
  | .list items, short => by
    rw [appendBaseValue, valueEncoding, List.append_nil]
    rw [ShortValue] at short
    exact appends_next (appends_type garbage kTypeStartArray)
      (appends_next (appends_appendItems items short) (appends_type garbage kTypeEndArray))

theorem appends_setEntries : (entries : List (List Byte × BaseValue)) → ShortEntries entries →
    Appends (setEntries garbage entries) (entriesEncoding entries)
  | [], _ => by
    rw [setEntries, entriesEncoding]
    exact appends_nothing
  | (_, value) :: rest, short => by
    rw [setEntries, entriesEncoding]
    rw [ShortEntries] at short
    exact appends_next (appends_setBaseValue short.1.1 value short.1.2) (appends_setEntries rest short.2)

theorem appends_appendItems : (items : List BaseValue) → ShortItems items →
    Appends (appendItems garbage items) (itemsEncoding items)
  | [], _ => by
    rw [appendItems, itemsEncoding]
    exact appends_nothing
  | item :: rest, short => by
    rw [appendItems, itemsEncoding]
    rw [ShortItems] at short
    exact appends_next (appends_appendBaseValue item short.1) (appends_appendItems rest short.2)

end

theorem appends_payload {value : Pickle} {header_size : Nat} {payload : List Byte}
    (holds : Holds value header_size payload) (short : payload.length < 2 ^ 31) :
    Appends (writeBytes garbage value.payload (BitVec.ofNat 32 value.payload_size)) payload := by
  have size := holds.payload_size_eq (by omega)
  obtain ⟨head, room, layout, -⟩ := holds
  have whole : value.payload = payload ++ room := by
    rw [Pickle.payload, layout.block, Option.getD_some, layout.header_size, List.drop_left]
  have same := toNat_length short
  have length : ((BitVec.ofNat 32 payload.length).signExtend 64).toNat = payload.length := by
    rw [(int_of_small (same.symm ▸ short)).2, same]
  have taken : writeBytes garbage (payload ++ room) (BitVec.ofNat 32 payload.length) =
      writeBytes garbage payload (BitVec.ofNat 32 payload.length) := by
    have fits : payload.length ≤ (payload ++ room).length := by
      rw [List.length_append]
      exact Nat.le_add_right _ _
    rw [writeBytes, writeBytes, length, writeBytesCommon_take garbage fits, List.take_left]
  have appends := appends_writeBytes garbage short
  rwa [padded_of_aligned layout.payload_aligned, ← taken, ← whole, ← size] at appends

theorem create_holds (capacity : Nat) : ∃ fresh, create garbage capacity = some fresh ∧ Holds fresh 4 [] := by
  obtain ⟨fresh, made, empty⟩ := new_holds garbage (show sizeofHeader ≤ sizeofHeader from Nat.le_refl _)
  simp only [create, made, Option.bind_eq_bind, Option.bind_some]
  split
  next => exact ⟨fresh, rfl, empty⟩
  next =>
    unfold reserve
    dsimp only
    split
    next full =>
      obtain ⟨head, room, layout, size⟩ := empty
      obtain ⟨larger, more, resized, relaid, -⟩ := layout.resize garbage
        (fresh.capacity_after_header_ * 2 + (fresh.write_offset_ + align capacity 4)) (by omega)
      rw [resized]
      exact ⟨larger, rfl, head, more, relaid, size⟩
    next => exact ⟨fresh, rfl, empty⟩

section Calls
variable (strings : BitVec 64 → List Byte)

theorem appends_set {name : Name} {scalar : Scalar} (named : name.Short) (short : scalar.Short) :
    Appends (name.set garbage scalar) (scalarEncoding name.encoding scalar) := by
  cases name with
  | literal ptr => cases scalar <;> exact appends_setScalar garbage (appends_keyNameAsRawPtr garbage ptr) short
  | copied str => cases scalar <;> exact appends_setScalar garbage (appends_keyNameWithCopy garbage named) short

theorem appends_begin {name : Name} (named : name.Short) :
    Appends (name.beginDictionary garbage) (field kTypeStartDict ++ name.encoding) ∧
      Appends (name.beginArray garbage) (field kTypeStartArray ++ name.encoding) := by
  cases name with
  | literal ptr =>
    exact ⟨appends_next (appends_type garbage kTypeStartDict) (appends_keyNameAsRawPtr garbage ptr),
      appends_next (appends_type garbage kTypeStartArray) (appends_keyNameAsRawPtr garbage ptr)⟩
  | copied str =>
    exact ⟨appends_next (appends_type garbage kTypeStartDict) (appends_keyNameWithCopy garbage named),
      appends_next (appends_type garbage kTypeStartArray) (appends_keyNameWithCopy garbage named)⟩

theorem appends_setValue {name : Name} (named : name.Short) {value : Pickle} {payload : List Byte}
    (holds : Holds value 4 payload) (short : payload.length < 2 ^ 31) :
    Appends (name.setValue garbage value)
      (field kTypeStartDict ++ name.encoding ++ (payload ++ field kTypeEndDict)) := by
  cases name with
  | literal ptr =>
    exact appends_next (appends_begin garbage named).1
      (appends_next (appends_payload garbage holds short) (appends_type garbage kTypeEndDict))
  | copied str =>
    exact appends_next (appends_begin garbage named).1
      (appends_next (appends_payload garbage holds short) (appends_type garbage kTypeEndDict))

mutual

theorem appends_exec : (call : Call) → call.Short strings →
    Appends (call.exec garbage strings) (call.encoding strings)
  | .set name scalar, short => by
    rw [Call.Short] at short
    rw [Call.exec, Call.encoding]
    exact appends_set garbage short.1 short.2
  | .setValue name capacity calls, short => by
    rw [Call.Short] at short
    rw [Call.exec, Call.encoding]
    obtain ⟨fresh, made, empty⟩ := create_holds garbage capacity
    obtain ⟨value, filled, holds⟩ := appends_execAll calls short.2.1 fresh 4 [] empty
    intro pickle header_size payload held
    obtain ⟨later, wrote, after⟩ := appends_setValue garbage short.1 holds short.2.2 pickle header_size payload held
    refine ⟨later, ?_, after⟩
    simp only [bind, StateT.bind, StateT.lift, made, filled, Option.bind_some, pure]
    exact wrote
  | .setBaseValue name value, short => by
    rw [Call.Short] at short
    rw [Call.exec, Call.encoding]
    exact appends_setBaseValue garbage short.1 value short.2
  | .beginDictionary name, short => by
    rw [Call.Short] at short
    rw [Call.exec, Call.encoding]
    exact (appends_begin garbage short).1
  | .beginArray name, short => by
    rw [Call.Short] at short
    rw [Call.exec, Call.encoding]
    exact (appends_begin garbage short).2
  | .endDictionary, _ => by
    rw [Call.exec, Call.encoding]
    exact appends_type garbage kTypeEndDict
  | .append scalar, short => by
    rw [Call.Short] at short
    rw [Call.exec, Call.encoding]
    cases scalar <;> exact appends_appendScalar garbage short
  | .appendBaseValue value, short => by
    rw [Call.Short] at short
    rw [Call.exec, Call.encoding]
    exact appends_appendBaseValue garbage value short
  | .beginUnnamedDictionary, _ => by
    rw [Call.exec, Call.encoding]
    exact appends_type garbage kTypeStartDict
  | .beginUnnamedArray, _ => by
    rw [Call.exec, Call.encoding]
    exact appends_type garbage kTypeStartArray
  | .endArray, _ => by
    rw [Call.exec, Call.encoding]
    exact appends_type garbage kTypeEndArray

theorem appends_execAll : (calls : List Call) → ShortCalls strings calls →
    Appends (execAll garbage strings calls) (callsEncoding strings calls)
  | [], _ => by
    rw [execAll, callsEncoding]
    exact appends_nothing
  | call :: rest, short => by
    rw [ShortCalls] at short
    rw [execAll, callsEncoding]
    exact appends_next (appends_exec call short.1) (appends_execAll rest short.2)

end

/-- A traced value holds what its calls append. -/
theorem traced_holds (capacity : Nat) {calls : List Call} (short : ShortCalls strings calls) :
    ∃ pickle, traced garbage strings capacity calls = some pickle ∧ Holds pickle 4 (callsEncoding strings calls) := by
  obtain ⟨fresh, made, empty⟩ := create_holds garbage capacity
  obtain ⟨pickle, filled, holds⟩ := appends_execAll garbage strings calls short fresh 4 [] empty
  refine ⟨pickle, ?_, holds⟩
  simp only [traced, made, filled, Option.bind_eq_bind, Option.bind_some]
  rfl

end Calls

end Writing

end Libchrome.Base.TraceEvent.TracedValue
