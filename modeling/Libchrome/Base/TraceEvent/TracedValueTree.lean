import Libchrome.Base.TraceEvent.TracedValue
import Libchrome.Base.Values.Dictionary

/-!
# The tree that the calls describe

Calls that nest well describe a tree. The reader builds it, since what the calls of a container
append leads the machine from the empty container to the one that they describe.
-/

namespace Libchrome.Base.TraceEvent.TracedValue
open Library.Bytes Json Pickle PickleIterator

def Scalar.value : Scalar → BaseValue
  | .boolean value => .boolean value
  | .integer value => .integer value
  | .double bits => .double (fundamentalDouble bits)
  | .string value => .string value

theorem fundamentalDouble_finite (value : FiniteDouble) : fundamentalDouble value.1 = value := dif_pos value.2

/-- A tree without null and binary nodes, whose dictionaries are maps. -/
inductive Proper : BaseValue → Prop
  | boolean (value : Bool) : Proper (.boolean value)
  | integer (value : Int32) : Proper (.integer value)
  | double (value : FiniteDouble) : Proper (.double value)
  | string (value : List Byte) : Proper (.string value)
  | list {items : List BaseValue} (each : ∀ item ∈ items, Proper item) : Proper (.list items)
  | dictionary {entries : List (List Byte × BaseValue)} (ascending : Values.Ascending entries)
    (each : ∀ entry ∈ entries, Proper entry.2) : Proper (.dictionary entries)

section Describing
variable (strings : BitVec 64 → List Byte)

/-- The calls lead from one content of the current container to another. -/
inductive Describes : List Call → Container → Container → Prop
  | nil (container : Container) : Describes [] container container
  | set {calls container entries} (name : Name) (scalar : Scalar) :
    Describes calls container (.dictionary entries) →
    Describes (calls ++ [.set name scalar]) container
      (.dictionary (setWithoutPathExpansion entries (name.text strings) scalar.value))
  | setValue {calls container entries inner others} (name : Name) (capacity : Nat) :
    Describes calls container (.dictionary entries) → Describes inner (.dictionary []) (.dictionary others) →
    Describes (calls ++ [.setValue name capacity inner]) container
      (.dictionary (setWithoutPathExpansion entries (name.text strings) (.dictionary others)))
  | setBaseValue {calls container entries value} (name : Name) :
    Describes calls container (.dictionary entries) → Proper value →
    Describes (calls ++ [.setBaseValue name value]) container
      (.dictionary (setWithoutPathExpansion entries (name.text strings) value))
  | dictionary {calls container entries inner others} (name : Name) :
    Describes calls container (.dictionary entries) → Describes inner (.dictionary []) (.dictionary others) →
    Describes (calls ++ .beginDictionary name :: (inner ++ [.endDictionary])) container
      (.dictionary (setWithoutPathExpansion entries (name.text strings) (.dictionary others)))
  | array {calls container entries inner items} (name : Name) :
    Describes calls container (.dictionary entries) → Describes inner (.list []) (.list items) →
    Describes (calls ++ .beginArray name :: (inner ++ [.endArray])) container
      (.dictionary (setWithoutPathExpansion entries (name.text strings) (.list items)))
  | append {calls container items} (scalar : Scalar) :
    Describes calls container (.list items) →
    Describes (calls ++ [.append scalar]) container (.list (items ++ [scalar.value]))
  | appendBaseValue {calls container items value} :
    Describes calls container (.list items) → Proper value →
    Describes (calls ++ [.appendBaseValue value]) container (.list (items ++ [value]))
  | unnamedDictionary {calls container items inner entries} :
    Describes calls container (.list items) → Describes inner (.dictionary []) (.dictionary entries) →
    Describes (calls ++ .beginUnnamedDictionary :: (inner ++ [.endDictionary])) container
      (.list (items ++ [.dictionary entries]))
  | unnamedArray {calls container items inner others} :
    Describes calls container (.list items) → Describes inner (.list []) (.list others) →
    Describes (calls ++ .beginUnnamedArray :: (inner ++ [.endArray])) container (.list (items ++ [.list others]))

end Describing

/-! ### Maps -/

theorem keyLess_irrefl (key : List Byte) : keyLess key key = false := by
  induction key with
  | nil => rfl
  | cons byte rest ih =>
    rw [keyLess, ih, Bool.and_false, Bool.or_false]
    exact decide_eq_false (BitVec.lt_irrefl byte)

theorem set_set {D : Type} (entries : List (List Byte × Value D)) (key : List Byte) (first second : Value D) :
    setWithoutPathExpansion (setWithoutPathExpansion entries key first) key second =
      setWithoutPathExpansion entries key second := by
  have itself := keyLess_irrefl key
  induction entries with
  | nil => simp only [setWithoutPathExpansion, itself, Bool.false_eq_true, if_false, if_true]
  | cons entry rest ih =>
    simp only [setWithoutPathExpansion]
    split
    next below => rw [setWithoutPathExpansion, if_pos below, ih]
    next =>
      split
      next => simp only [setWithoutPathExpansion, itself, Bool.false_eq_true, if_false, if_true]
      next => simp only [setWithoutPathExpansion, itself, Bool.false_eq_true, if_false, if_true]

theorem set_last {D : Type} {entries : List (List Byte × Value D)} {key : List Byte} (value : Value D)
    (above : ∀ entry ∈ entries, keyLess entry.1 key = true) :
    setWithoutPathExpansion entries key value = entries ++ [(key, value)] := by
  induction entries with
  | nil => rfl
  | cons entry rest ih =>
    rw [setWithoutPathExpansion, if_pos (above entry List.mem_cons_self),
      ih fun other member => above other (List.mem_cons_of_mem _ member), List.cons_append]

/-! ### Reading -/

section Reading
variable (strings : BitVec 64 → List Byte)

/-- What is read takes the machine to another state in some rounds of the loop. -/
def Runs (machine : Machine) (bytes : List Byte) (after : Machine) : Prop :=
  ∀ it rest, Ahead it (bytes ++ rest) → ∃ later rounds, rounds ≤ bytes.length ∧ Ahead later rest ∧
    ∀ fuel, toBaseValueLoop strings (fuel + rounds) machine it = toBaseValueLoop strings fuel after later

theorem Runs.refl (machine : Machine) : Runs strings machine [] machine :=
  fun it _ ahead => ⟨it, 0, Nat.le_refl 0, ahead, fun _ => rfl⟩

variable {strings}

theorem Runs.trans {machine middle after : Machine} {front back : List Byte} (first : Runs strings machine front middle)
    (second : Runs strings middle back after) : Runs strings machine (front ++ back) after := by
  intro it rest ahead
  rw [List.append_assoc] at ahead
  obtain ⟨between, rounds, few, left, ran⟩ := first it (back ++ rest) ahead
  obtain ⟨later, more, fewer, leftMore, ranMore⟩ := second between rest left
  refine ⟨later, more + rounds, ?_, leftMore, ?_⟩
  · rw [List.length_append]
    omega
  · intro fuel
    rw [← Nat.add_assoc, ran, ranMore]

theorem reads_field (type : Byte) : Reads (readBytes 1) (field type) [type] :=
  reads_bytes (show 1 < 2 ^ 31 by decide)

theorem reads_stringField {str : List Byte} (short : str.length < 2 ^ 31) : Reads readString (stringField str) str :=
  reads_string short

theorem runs_round {type : Byte} {machine after : Machine} {bytes : List Byte}
    (dispatched : ∀ it rest, Ahead it (bytes ++ rest) →
      ∃ later, dispatch strings type machine it = some (after, later) ∧ Ahead later rest) :
    Runs strings machine (field type ++ bytes) after := by
  intro it rest ahead
  rw [List.append_assoc] at ahead
  obtain ⟨middle, read, left⟩ := reads_field type it _ ahead
  obtain ⟨later, went, leftMore⟩ := dispatched middle rest left
  refine ⟨later, 1, ?_, leftMore, ?_⟩
  · rw [List.length_append, field, length_padded]
    exact Nat.le_trans (show 1 ≤ align 1 4 by decide) (Nat.le_add_right _ _)
  · intro fuel
    rw [toBaseValueLoop, read]
    simp only [List.headD_cons, went]

/-- A new value enters a container by the encoding of its name, and can be replaced in its place. -/
structure Slot (strings : BitVec 64 → List Byte) (container : Container) (bytes : List Byte)
    (filled : BaseValue → Container) (place : Place) : Prop where
  enters (value : BaseValue) : ∀ it rest, Ahead it (bytes ++ rest) →
    ∃ later, enter strings container value it = (filled value, place, later) ∧ Ahead later rest
  puts (value other : BaseValue) : (filled value).put place other = filled other

theorem readKeyName_reads (strings : BitVec 64 → List Byte) {name : Name} (short : name.Short) (it : PickleIterator)
    (rest : List Byte) (ahead : Ahead it (name.encoding ++ rest)) :
    ∃ later, readKeyName strings it = (name.text strings, later) ∧ Ahead later rest := by
  cases name with
  | literal ptr =>
    rw [Name.encoding, List.append_assoc] at ahead
    obtain ⟨middle, type, left⟩ := reads_field kTypeCStr it _ ahead
    have reads : Reads readUInt64 (encode 8 ptr.toNat) ptr := reads_word 8 (by decide) rfl ptr
    obtain ⟨later, read, leftMore⟩ := reads middle rest left
    refine ⟨later, ?_, leftMore⟩
    rw [readKeyName, type]
    simp only [if_true, read]
    rfl
  | copied str =>
    rw [Name.encoding, List.append_assoc] at ahead
    obtain ⟨middle, type, left⟩ := reads_field kTypeString it _ ahead
    obtain ⟨later, read, leftMore⟩ := reads_stringField short middle rest left
    refine ⟨later, ?_, leftMore⟩
    rw [readKeyName, type]
    simp only [if_neg (show ¬[kTypeString] = [kTypeCStr] by decide), if_true, read]
    rfl

theorem slot_dictionary (strings : BitVec 64 → List Byte) {name : Name} (short : name.Short)
    (entries : List (List Byte × BaseValue)) :
    Slot strings (.dictionary entries) name.encoding
      (fun value => .dictionary (setWithoutPathExpansion entries (name.text strings) value))
      (.key (name.text strings)) where
  enters value it rest ahead := by
    obtain ⟨later, read, left⟩ := readKeyName_reads strings short it rest ahead
    refine ⟨later, ?_, left⟩
    simp only [enter, read]
  puts value other := by
    simp only [Container.put, set_set]

theorem slot_list (items : List BaseValue) :
    Slot strings (.list items) [] (fun value => .list (items ++ [value])) (.index items.length) where
  enters value it rest ahead := ⟨it, rfl, ahead⟩
  puts value other := by
    simp only [Container.put, List.set_append_right _ _ (Nat.le_refl _), Nat.sub_self, List.set_cons_zero]

variable {container : Container} {bytes : List Byte} {filled : BaseValue → Container} {place : Place}
  {stack : List (Container × Place)}

theorem enterRead_reads {α : Type} (slot : Slot strings container bytes filled place) {read : Reader α}
    {front : List Byte} {value : α} (reads : Reads read front value) (convert : α → BaseValue) (it : PickleIterator)
    (rest : List Byte) (ahead : Ahead it (front ++ bytes ++ rest)) :
    ∃ later, enterRead strings read convert ⟨container, stack⟩ it = some (⟨filled (convert value), stack⟩, later) ∧
      Ahead later rest := by
  rw [List.append_assoc] at ahead
  obtain ⟨middle, first, left⟩ := reads it _ ahead
  obtain ⟨later, entered, leftMore⟩ := slot.enters (convert value) middle rest left
  refine ⟨later, ?_, leftMore⟩
  simp only [enterRead, first, entered]

theorem runs_scalar (slot : Slot strings container bytes filled place) {scalar : Scalar} (short : scalar.Short) :
    Runs strings ⟨container, stack⟩ (scalarEncoding bytes scalar) ⟨filled scalar.value, stack⟩ := by
  apply runs_round
  intro it rest ahead
  cases scalar with
  | boolean value => exact enterRead_reads slot (reads_bool value) .boolean it rest ahead
  | integer value =>
    exact enterRead_reads slot (reads_int value.toBitVec) (fun value => .integer (.ofBitVec value)) it rest ahead
  | double bits =>
    exact enterRead_reads slot (reads_word 8 (by decide) rfl bits)
      (fun bits => .double (fundamentalDouble bits)) it rest ahead
  | string value => exact enterRead_reads slot (reads_stringField short) .string it rest ahead

variable {inner : List Byte}

section
variable (slot : Slot strings container bytes filled place)
include slot

theorem runs_child {start finish : Byte} {child after : Container}
    (starts : ∀ machine it, dispatch strings start machine it = some (descend strings child machine it))
    (finishes : finish = kTypeEndArray ∨ finish = kTypeEndDict)
    (body : ∀ stack, Runs strings ⟨child, stack⟩ inner ⟨after, stack⟩) :
    Runs strings ⟨container, stack⟩ (field start ++ bytes ++ (inner ++ field finish)) ⟨filled after.value, stack⟩ := by
  have begun : Runs strings ⟨container, stack⟩ (field start ++ bytes)
      ⟨child, (filled child.value, place) :: stack⟩ := by
    apply runs_round
    intro it rest ahead
    obtain ⟨later, entered, left⟩ := slot.enters child.value it rest ahead
    refine ⟨later, ?_, left⟩
    simp only [starts, descend, entered]
  have ended : Runs strings ⟨after, (filled child.value, place) :: stack⟩ (field finish)
      ⟨filled after.value, stack⟩ := by
    have round : Runs strings ⟨after, (filled child.value, place) :: stack⟩ (field finish ++ [])
        ⟨filled after.value, stack⟩ := by
      apply runs_round
      intro it rest ahead
      refine ⟨it, ?_, ahead⟩
      have closes : ¬finish = kTypeStartDict := by
        rcases finishes with rfl | rfl <;> decide
      rw [dispatch, if_neg closes, if_pos finishes]
      simp only [slot.puts]
    rwa [List.append_nil] at round
  exact begun.trans ((body _).trans ended)

theorem runs_dictionary {entries : List (List Byte × BaseValue)}
    (body : ∀ stack, Runs strings ⟨.dictionary [], stack⟩ inner ⟨.dictionary entries, stack⟩) :
    Runs strings ⟨container, stack⟩ (field kTypeStartDict ++ bytes ++ (inner ++ field kTypeEndDict))
      ⟨filled (.dictionary entries), stack⟩ :=
  runs_child slot (fun _ _ => rfl) (.inr rfl) body

theorem runs_list {items : List BaseValue}
    (body : ∀ stack, Runs strings ⟨.list [], stack⟩ inner ⟨.list items, stack⟩) :
    Runs strings ⟨container, stack⟩ (field kTypeStartArray ++ bytes ++ (inner ++ field kTypeEndArray))
      ⟨filled (.list items), stack⟩ :=
  runs_child slot (fun _ _ => rfl) (.inl rfl) body

end

end Reading

section Trees
variable (strings : BitVec 64 → List Byte)

theorem slot_last {done : List (List Byte × BaseValue)} {key : List Byte} (short : key.length < 2 ^ 31)
    (above : ∀ entry ∈ done, keyLess entry.1 key = true) (value : BaseValue) :
    ∃ filled, Slot strings (.dictionary done) (Name.copied key).encoding filled (.key key) ∧
      filled value = .dictionary (done ++ [(key, value)]) := by
  have slot := slot_dictionary strings (show (Name.copied key).Short from short) done
  exact ⟨_, slot, congrArg Container.dictionary (set_last value above)⟩

mutual

/-- The reader builds a tree from its encoding. -/
theorem runs_value {container : Container} {bytes : List Byte} {filled : BaseValue → Container} {place : Place}
    (slot : Slot strings container bytes filled place) (stack : List (Container × Place)) : (value : BaseValue) →
    Proper value → ShortValue value →
    Runs strings ⟨container, stack⟩ (valueEncoding bytes value) ⟨filled value, stack⟩
  | .null, proper, _ => nomatch proper
  | .binary _, proper, _ => nomatch proper
  | .boolean value, _, _ => by
    rw [valueEncoding]
    exact runs_scalar slot (show (Scalar.boolean value).Short from trivial)
  | .integer value, _, _ => by
    rw [valueEncoding]
    exact runs_scalar slot (show (Scalar.integer value).Short from trivial)
  | .double value, _, _ => by
    have same : (Scalar.double value.1).value = .double value := congrArg Value.double (fundamentalDouble_finite value)
    rw [valueEncoding, ← same]
    exact runs_scalar slot (show (Scalar.double value.1).Short from trivial)
  | .string value, _, short => by
    rw [valueEncoding]
    rw [ShortValue] at short
    exact runs_scalar slot (show (Scalar.string value).Short from short)
  | .dictionary entries, .dictionary ascending each, short => by
    rw [valueEncoding]
    rw [ShortValue] at short
    exact runs_dictionary slot fun stack => runs_entries stack entries [] ascending each short
  | .list items, .list each, short => by
    rw [valueEncoding]
    rw [ShortValue] at short
    exact runs_list slot fun stack => runs_items stack items [] each short

theorem runs_entries (stack : List (Container × Place)) : (entries done : List (List Byte × BaseValue)) →
    Values.Ascending (done ++ entries) → (∀ entry ∈ entries, Proper entry.2) → ShortEntries entries →
    Runs strings ⟨.dictionary done, stack⟩ (entriesEncoding entries) ⟨.dictionary (done ++ entries), stack⟩
  | [], done, _, _, _ => by
    rw [entriesEncoding, List.append_nil]
    exact Runs.refl strings _
  | (key, value) :: rest, done, ascending, each, short => by
    rw [entriesEncoding]
    rw [ShortEntries] at short
    have above : ∀ entry ∈ done, keyLess entry.1 key = true := fun entry member =>
      (Values.keyLess_iff entry.1 key).mpr
        ((List.pairwise_append.mp ascending).2.2 entry member (key, value) List.mem_cons_self)
    obtain ⟨filled, slot, last⟩ := slot_last strings short.1.1 above value
    have first := runs_value slot stack value (each _ List.mem_cons_self) short.1.2
    rw [List.append_cons] at ascending
    have others := runs_entries stack rest (done ++ [(key, value)]) ascending
      (fun entry member => each entry (List.mem_cons_of_mem _ member)) short.2
    rw [last] at first
    rw [List.append_cons]
    exact first.trans others

theorem runs_items (stack : List (Container × Place)) : (items done : List BaseValue) →
    (∀ item ∈ items, Proper item) → ShortItems items →
    Runs strings ⟨.list done, stack⟩ (itemsEncoding items) ⟨.list (done ++ items), stack⟩
  | [], done, _, _ => by
    rw [itemsEncoding, List.append_nil]
    exact Runs.refl strings _
  | item :: rest, done, each, short => by
    rw [itemsEncoding, List.append_cons]
    rw [ShortItems] at short
    have first := runs_value (slot_list done) stack item (each _ List.mem_cons_self) short.1
    have others := runs_items stack rest (done ++ [item])
      (fun other member => each other (List.mem_cons_of_mem _ member)) short.2
    exact first.trans others

end

theorem callsEncoding_append (calls others : List Call) :
    callsEncoding strings (calls ++ others) = callsEncoding strings calls ++ callsEncoding strings others := by
  induction calls with
  | nil => rw [callsEncoding, List.nil_append, List.nil_append]
  | cons call rest ih => rw [List.cons_append, callsEncoding, callsEncoding, ih, List.append_assoc]

theorem shortCalls_append (calls others : List Call) :
    ShortCalls strings (calls ++ others) ↔ ShortCalls strings calls ∧ ShortCalls strings others := by
  induction calls with
  | nil => simp only [List.nil_append, ShortCalls, true_and]
  | cons call rest ih => rw [List.cons_append, ShortCalls, ShortCalls, ih, and_assoc]

/-- The calls that open and close a container, and those between them. -/
theorem callsEncoding_block (opening closing : Call) (inner : List Call) :
    callsEncoding strings (opening :: (inner ++ [closing])) =
      opening.encoding strings ++ (callsEncoding strings inner ++ closing.encoding strings) := by
  rw [callsEncoding, callsEncoding_append, callsEncoding, callsEncoding, List.append_nil]

theorem shortCalls_block {opening closing : Call} {inner : List Call}
    (short : ShortCalls strings (opening :: (inner ++ [closing]))) :
    opening.Short strings ∧ ShortCalls strings inner := by
  rw [ShortCalls, shortCalls_append] at short
  exact ⟨short.1, short.2.1⟩

theorem callsEncoding_single (call : Call) : callsEncoding strings [call] = call.encoding strings := by
  rw [callsEncoding, callsEncoding, List.append_nil]

variable {calls : List Call}

theorem runs_described {container after : Container} (describes : Describes strings calls container after)
    (short : ShortCalls strings calls) :
    ∀ stack, Runs strings ⟨container, stack⟩ (callsEncoding strings calls) ⟨after, stack⟩ := by
  induction describes with
  | nil container => exact fun stack => Runs.refl strings _
  | set name scalar _ ih =>
    rw [shortCalls_append, ShortCalls, Call.Short] at short
    intro stack
    rw [callsEncoding_append, callsEncoding_single, Call.encoding]
    exact (ih short.1 stack).trans (runs_scalar (slot_dictionary strings short.2.1.1 _) short.2.1.2)
  | setValue name capacity _ _ ih inside =>
    rw [shortCalls_append, ShortCalls, Call.Short] at short
    intro stack
    rw [callsEncoding_append, callsEncoding_single, Call.encoding]
    exact (ih short.1 stack).trans (runs_dictionary (slot_dictionary strings short.2.1.1 _) (inside short.2.1.2.1))
  | setBaseValue name _ proper ih =>
    rw [shortCalls_append, ShortCalls, Call.Short] at short
    intro stack
    rw [callsEncoding_append, callsEncoding_single, Call.encoding]
    have slot := slot_dictionary strings (show (Name.copied (name.text strings)).Short from short.2.1.1)
    exact (ih short.1 stack).trans (runs_value strings (slot _) stack _ proper short.2.1.2)
  | dictionary name _ _ ih inside =>
    rw [shortCalls_append] at short
    have block := shortCalls_block strings short.2
    rw [Call.Short] at block
    intro stack
    rw [callsEncoding_append, callsEncoding_block, Call.encoding, Call.encoding]
    exact (ih short.1 stack).trans (runs_dictionary (slot_dictionary strings block.1 _) (inside block.2))
  | array name _ _ ih inside =>
    rw [shortCalls_append] at short
    have block := shortCalls_block strings short.2
    rw [Call.Short] at block
    intro stack
    rw [callsEncoding_append, callsEncoding_block, Call.encoding, Call.encoding]
    exact (ih short.1 stack).trans (runs_list (slot_dictionary strings block.1 _) (inside block.2))
  | append scalar _ ih =>
    rw [shortCalls_append, ShortCalls, Call.Short] at short
    intro stack
    rw [callsEncoding_append, callsEncoding_single, Call.encoding]
    exact (ih short.1 stack).trans (runs_scalar (slot_list _) short.2.1)
  | appendBaseValue _ proper ih =>
    rw [shortCalls_append, ShortCalls, Call.Short] at short
    intro stack
    rw [callsEncoding_append, callsEncoding_single, Call.encoding]
    exact (ih short.1 stack).trans (runs_value strings (slot_list _) stack _ proper short.2.1)
  | unnamedDictionary _ _ ih inside =>
    rw [shortCalls_append] at short
    have block := shortCalls_block strings short.2
    intro stack
    rw [callsEncoding_append, callsEncoding_block, Call.encoding, Call.encoding,
      ← List.append_nil (field kTypeStartDict)]
    exact (ih short.1 stack).trans (runs_dictionary (slot_list _) (inside block.2))
  | unnamedArray _ _ ih inside =>
    rw [shortCalls_append] at short
    have block := shortCalls_block strings short.2
    intro stack
    rw [callsEncoding_append, callsEncoding_block, Call.encoding, Call.encoding,
      ← List.append_nil (field kTypeStartArray)]
    exact (ih short.1 stack).trans (runs_list (slot_list _) (inside block.2))

/-- The reader returns what the calls describe. -/
theorem toBaseValue_described {entries : List (List Byte × BaseValue)} {pickle : Pickle}
    (describes : Describes strings calls (.dictionary []) (.dictionary entries)) (short : ShortCalls strings calls)
    (holds : Pickle.Holds pickle 4 (callsEncoding strings calls))
    (small : (callsEncoding strings calls).length < 2 ^ 32) :
    toBaseValue strings pickle = some (.dictionary entries) := by
  have ahead := holds.ahead_new small
  rw [← List.append_nil (callsEncoding strings calls)] at ahead
  obtain ⟨later, rounds, few, left, ran⟩ := runs_described strings describes short [] _ [] ahead
  obtain ⟨spare, enough⟩ := Nat.exists_eq_add_of_le few
  have ended := failsAtEnd_bytes (show (1 : BitVec 32) ≠ 0 by decide) later left
  have fuel : pickle.payload_size + 1 = spare + 1 + rounds := by
    rw [holds.payload_size_eq small]
    omega
  rw [toBaseValue, fuel, ran, toBaseValueLoop]
  split
  next => rfl
  next type it read =>
    rw [readBytes] at read
    rw [read] at ended
    cases ended

/-! ### Calls that nest well -/

def Container.type : Container → StackType
  | .dictionary _ => .dict
  | .list _ => .array

/-- The container that a call opens. -/
def StackType.opened : StackType → Container
  | .dict => .dictionary []
  | .array => .list []

/-- The call that closes a container. -/
def StackType.closing : StackType → Call
  | .dict => .endDictionary
  | .array => .endArray

mutual

/-- The trees that a call takes are without null and binary nodes. -/
def Call.Proper : Call → Prop
  | .setValue _ _ calls => ProperCalls calls
  | .setBaseValue _ value => TracedValue.Proper value
  | .appendBaseValue value => TracedValue.Proper value
  | _ => True

def ProperCalls : List Call → Prop
  | [] => True
  | call :: rest => call.Proper ∧ ProperCalls rest

end

structure WellNested (calls : List Call) : Prop where
  proper : ProperCalls calls
  nested : nestAll calls [.dict] = some [.dict]

/-- Calls that continue what calls in a container of a type describe. -/
def Extends (type : StackType) (block : List Call) : Prop :=
  ∀ calls start container, container.type = type → Describes strings calls start container →
    ∃ after, after.type = type ∧ Describes strings (calls ++ block) start after

/-- The calls so far, with the innermost container that they leave open. -/
inductive Open : List Call → List StackType → Prop
  | root {calls container} : Describes strings calls (.dictionary []) container → container.type = .dict →
    Open calls [.dict]
  | child {outer opening inner current type nesting container} : Open outer (current :: nesting) →
    (∀ inner container, container.type = type → Describes strings inner type.opened container →
      Extends strings current (opening :: (inner ++ [type.closing]))) →
    Describes strings inner type.opened container → container.type = type →
    Open (outer ++ opening :: inner) (type :: current :: nesting)

/-- What a call does to the nesting: it stays in the current container, opens another one, or closes the current one. -/
inductive Nests (call : Call) (current : StackType) (nesting : List StackType) : List StackType → Prop
  | stays : Extends strings current [call] → Nests call current nesting (current :: nesting)
  | opens {type} : (∀ inner container, container.type = type → Describes strings inner type.opened container →
      Extends strings current (call :: (inner ++ [type.closing]))) →
    Nests call current nesting (type :: current :: nesting)
  | closes : call = current.closing → Nests call current nesting nesting

variable {strings}

variable {block : List Call}

theorem Open.extend {current : StackType} {nesting : List StackType}
    (opened : Open strings calls (current :: nesting)) (extend : Extends strings current block) :
    Open strings (calls ++ block) (current :: nesting) := by
  cases opened with
  | root described same =>
    obtain ⟨after, still, more⟩ := extend _ _ _ same described
    exact .root more still
  | child outer closes described same =>
    obtain ⟨after, still, more⟩ := extend _ _ _ same described
    rw [List.append_assoc, List.cons_append]
    exact .child outer closes more still

/-- A container that is closed extends the one around it. -/
theorem Open.close {current : StackType} {nesting : List StackType} (opened : Open strings calls (current :: nesting))
    (inside : nesting ≠ []) : Open strings (calls ++ [current.closing]) nesting := by
  cases opened with
  | root => exact absurd rfl inside
  | child outer closes described same =>
    rw [List.append_assoc, List.cons_append]
    exact outer.extend (closes _ _ same described)

theorem extends_dict
    (more : ∀ {calls container entries}, Describes strings calls container (.dictionary entries) →
      ∃ others, Describes strings (calls ++ block) container (.dictionary others)) : Extends strings .dict block := by
  intro calls start container same described
  cases container with
  | list items => cases same
  | dictionary entries =>
    obtain ⟨others, after⟩ := more described
    exact ⟨.dictionary others, rfl, after⟩

theorem extends_array
    (more : ∀ {calls container items}, Describes strings calls container (.list items) →
      ∃ others, Describes strings (calls ++ block) container (.list others)) : Extends strings .array block := by
  intro calls start container same described
  cases container with
  | dictionary entries => cases same
  | list items =>
    obtain ⟨others, after⟩ := more described
    exact ⟨.list others, rfl, after⟩

theorem Open.described (opened : Open strings calls [.dict]) :
    ∃ entries, Describes strings calls (.dictionary []) (.dictionary entries) := by
  cases opened with
  | root described same =>
    next container =>
      cases container with
      | dictionary entries => exact ⟨entries, described⟩
      | list items => cases same

theorem nestAll_nil (calls : List Call) : nestAll calls [] ≠ some [.dict] := by
  cases calls with
  | nil => simp only [nestAll, ne_eq, Option.some.injEq, List.nil_eq, reduceCtorEq, not_false_eq_true]
  | cons call rest =>
    have refused : call.nest [] = none := by cases call <;> rfl
    rw [nestAll, refused]
    exact Option.some_ne_none _ ∘ Eq.symm

variable (strings)

mutual

theorem nests_of_nest (current : StackType) (nesting : List StackType) {after : List StackType} : (call : Call) →
    call.Proper → call.nest (current :: nesting) = some after → Nests strings call current nesting after
  | .set name scalar, _, nested => by
    cases current with
    | array => cases nested
    | dict =>
      cases nested
      exact .stays (extends_dict fun described => ⟨_, .set name scalar described⟩)
  | .setValue name capacity calls, proper, nested => by
    cases current with
    | array => cases nested
    | dict =>
      rw [Call.nest] at nested
      split at nested
      next complete =>
        cases nested
        rw [Call.Proper] at proper
        obtain ⟨others, inside⟩ := (open_of_nestAll calls proper (.root (.nil _) rfl) complete).described
        exact .stays (extends_dict fun described => ⟨_, .setValue name capacity described inside⟩)
      next => cases nested
  | .setBaseValue name value, proper, nested => by
    cases current with
    | array => cases nested
    | dict =>
      cases nested
      rw [Call.Proper] at proper
      exact .stays (extends_dict fun described => ⟨_, .setBaseValue name described proper⟩)
  | .beginDictionary name, _, nested => by
    cases current with
    | array => cases nested
    | dict =>
      cases nested
      refine .opens fun inner container same inside => extends_dict fun described => ?_
      cases container with
      | list items => cases same
      | dictionary entries => exact ⟨_, .dictionary name described inside⟩
  | .beginArray name, _, nested => by
    cases current with
    | array => cases nested
    | dict =>
      cases nested
      refine .opens fun inner container same inside => extends_dict fun described => ?_
      cases container with
      | dictionary entries => cases same
      | list items => exact ⟨_, .array name described inside⟩
  | .endDictionary, _, nested => by
    cases current with
    | array => cases nested
    | dict =>
      cases nested
      exact .closes rfl
  | .append scalar, _, nested => by
    cases current with
    | dict => cases nested
    | array =>
      cases nested
      exact .stays (extends_array fun described => ⟨_, .append scalar described⟩)
  | .appendBaseValue value, proper, nested => by
    cases current with
    | dict => cases nested
    | array =>
      cases nested
      rw [Call.Proper] at proper
      exact .stays (extends_array fun described => ⟨_, .appendBaseValue described proper⟩)
  | .beginUnnamedDictionary, _, nested => by
    cases current with
    | dict => cases nested
    | array =>
      cases nested
      refine .opens fun inner container same inside => extends_array fun described => ?_
      cases container with
      | list items => cases same
      | dictionary entries => exact ⟨_, .unnamedDictionary described inside⟩
  | .beginUnnamedArray, _, nested => by
    cases current with
    | dict => cases nested
    | array =>
      cases nested
      refine .opens fun inner container same inside => extends_array fun described => ?_
      cases container with
      | dictionary entries => cases same
      | list items => exact ⟨_, .unnamedArray described inside⟩
  | .endArray, _, nested => by
    cases current with
    | dict => cases nested
    | array =>
      cases nested
      exact .closes rfl

theorem open_of_nestAll : (rest : List Call) → ProperCalls rest → {calls : List Call} → {nesting : List StackType} →
    Open strings calls nesting → nestAll rest nesting = some [.dict] → Open strings (calls ++ rest) [.dict]
  | [], _, calls, nesting, opened, nested => by
    rw [nestAll] at nested
    cases nested
    rwa [List.append_nil]
  | call :: rest, proper, calls, [], opened, _ => nomatch opened
  | call :: rest, proper, calls, innermost :: nesting, opened, nested => by
    rw [ProperCalls] at proper
    rw [nestAll] at nested
    obtain ⟨middle, one, others⟩ := Option.bind_eq_some_iff.mp nested
    have further : Open strings (calls ++ [call]) middle := by
      cases nests_of_nest innermost nesting call proper.1 one with
      | stays extend => exact opened.extend extend
      | opens closes =>
        next type => exact .child opened closes (.nil _) (by cases type <;> rfl)
      | closes same =>
        rw [same]
        refine opened.close fun nothing => ?_
        rw [nothing] at others
        exact nestAll_nil rest others
    have whole := open_of_nestAll rest proper.2 further others
    rwa [List.append_assoc] at whole

end

/-- Calls that nest well describe a tree. -/
theorem WellNested.described (nested : WellNested calls) :
    ∃ entries, Describes strings calls (.dictionary []) (.dictionary entries) :=
  (open_of_nestAll strings calls nested.proper (.root (.nil _) rfl) nested.nested).described

theorem Describes.unique {entries others : List (List Byte × BaseValue)}
    (first : Describes strings calls (.dictionary []) (.dictionary entries))
    (second : Describes strings calls (.dictionary []) (.dictionary others)) (short : ShortCalls strings calls)
    (small : (callsEncoding strings calls).length < 2 ^ 32) : others = entries := by
  obtain ⟨pickle, -, holds⟩ := traced_holds (fun _ _ => 0) strings 0 short
  have one := toBaseValue_described strings first short holds small
  have two := toBaseValue_described strings second short holds small
  rw [one, Option.some.injEq, Value.dictionary.injEq] at two
  exact two.symm

/-- `ToBaseValue` returns the tree that the calls describe. -/
theorem toBaseValue_traced (garbage : Nat → Nat → Byte) (capacity : Nat) {calls : List Call}
    (nested : WellNested calls) (short : ShortCalls strings calls)
    (small : (callsEncoding strings calls).length < 2 ^ 32) :
    ∃ entries pickle, Describes strings calls (.dictionary []) (.dictionary entries) ∧
      (∀ others, Describes strings calls (.dictionary []) (.dictionary others) → others = entries) ∧
      traced garbage strings capacity calls = some pickle ∧
      toBaseValue strings pickle = some (.dictionary entries) := by
  obtain ⟨entries, described⟩ := nested.described strings
  obtain ⟨pickle, filled, holds⟩ := traced_holds garbage strings capacity short
  exact ⟨entries, pickle, described, fun others other => described.unique strings other short small, filled,
    toBaseValue_described strings described short holds small⟩

theorem toBaseValue_traced_repeated :
    let calls : List Call := [.set (.literal 8) (.integer 1), .beginArray (.copied [97]), .append (.boolean true),
      .endArray, .setValue (.copied [98]) 0 [.set (.literal 8) (.double 0)], .set (.literal 8) (.string [99])]
    WellNested calls ∧ ShortCalls (fun _ => [100]) calls ∧
    ∃ entries pickle, Describes (fun _ => [100]) calls (.dictionary []) (.dictionary entries) ∧
      (∀ others, Describes (fun _ => [100]) calls (.dictionary []) (.dictionary others) → others = entries) ∧
      traced (fun _ _ => 0) (fun _ => [100]) 0 calls = some pickle ∧
      toBaseValue (fun _ => [100]) pickle = some (.dictionary entries) := by
  intro calls
  have nested : WellNested calls := ⟨by simp [calls, ProperCalls, Call.Proper], rfl⟩
  have short : ShortCalls (fun _ => [100]) calls := by
    simp only [calls, ShortCalls, Call.Short, Name.Short, Scalar.Short]
    decide
  exact ⟨nested, short, toBaseValue_traced (fun _ => [100]) (fun _ _ => 0) 0 nested short (by decide)⟩

end Trees

/-! ### Strings whose length is no `int` -/

section Long
open Pickle
variable {α β : Type}

def Fails (writer : Pickle.Writer α) : Prop := ∀ pickle, writer pickle = none

theorem Fails.bind {first : Pickle.Writer α} (fails : Fails first) (next : α → Pickle.Writer β) :
    Fails (first >>= next) := by
  intro pickle
  simp only [Bind.bind, StateT.bind, fails pickle, Option.bind_none]

theorem Fails.after {next : α → Pickle.Writer β} (fails : ∀ value, Fails (next value)) (first : Pickle.Writer α) :
    Fails (first >>= next) := by
  intro pickle
  simp only [Bind.bind, StateT.bind]
  cases first pickle with
  | none => rfl
  | some result => exact fails result.1 result.2

theorem fails_writeBytes (garbage : Nat → Nat → Byte) {data : List Byte} {length : BitVec 32}
    (beyond : data.length < (length.signExtend 64).toNat) : Fails (writeBytes garbage data length) := by
  refine Fails.bind (fun pickle => ?_) _
  rw [writeBytesCommon]
  simp only [if_neg (Nat.not_le.mpr beyond)]
  cases claimUninitializedBytesInternal garbage pickle (length.signExtend 64).toNat <;> rfl

theorem fails_writeString (garbage : Nat → Nat → Byte) {value : List Byte} (long : value.length = 2 ^ 31) :
    Fails (writeString garbage value) := by
  have beyond : value.length < ((BitVec.ofNat 32 value.length).signExtend 64).toNat := by
    rw [long]
    decide
  have both : writeString garbage value =
      (writeBytesCommon garbage (encode 4 (BitVec.ofNat 32 value.length).toNat) 4 >>= fun _ =>
        writeBytes garbage value (BitVec.ofNat 32 value.length)) := by
    simp only [writeString, andThen, writeInt, writePOD, bind_assoc, pure_bind, if_true]
  rw [both]
  exact Fails.after (fun _ => fails_writeBytes garbage beyond) _

/-- The length of a string of 2^31 bytes is negative, and `WriteBytes` copies from beyond the string. -/
theorem traced_long {value : List Byte} (long : value.length = 2 ^ 31) :
    let calls : List Call := [.set (.copied []) (.string value)]
    WellNested calls ∧ Describes (fun _ => []) calls (.dictionary []) (.dictionary [([], .string value)]) ∧
      traced (fun _ _ => 0) (fun _ => []) 0 calls = none := by
  have fails : Fails (setStringWithCopiedName (fun _ _ => 0) [] value) :=
    Fails.after (fun _ => (fails_writeString _ long).bind _) _
  refine ⟨⟨by simp [ProperCalls, Call.Proper], rfl⟩, .set (.copied []) (.string value) (.nil _), ?_⟩
  have whole : Fails (execAll (fun _ _ => 0) (fun _ => []) [.set (.copied []) (.string value)]) := by
    rw [execAll, Call.exec]
    exact fails.bind _
  rw [traced]
  cases create (fun _ _ => 0) 0 with
  | none => rfl
  | some fresh => exact congrArg (Option.bind · _) (whole fresh)

/-- So calls that nest well are not enough. -/
theorem not_toBaseValue_traced : ¬∀ (garbage : Nat → Nat → Byte) (strings : BitVec 64 → List Byte) (capacity : Nat)
    (calls : List Call), WellNested calls → ∃ entries pickle,
      Describes strings calls (.dictionary []) (.dictionary entries) ∧
      traced garbage strings capacity calls = some pickle ∧
      toBaseValue strings pickle = some (.dictionary entries) := by
  intro always
  have length : (List.replicate (2 ^ 31) (0 : Byte)).length = 2 ^ 31 := List.length_replicate
  generalize List.replicate (2 ^ 31) (0 : Byte) = value at length
  obtain ⟨nested, -, nothing⟩ := traced_long length
  obtain ⟨_, pickle, _, filled, _⟩ := always (fun _ _ => 0) (fun _ => []) 0 _ nested
  rw [nothing] at filled
  cases filled

end Long

end Libchrome.Base.TraceEvent.TracedValue
