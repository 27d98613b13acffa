import Libchrome.Dbus.PropertySet

/-!
# Which properties are valid

A message delivers a value of a property's type, or it does not, and a property is valid as long as the
last item that names it delivered its value.
-/

namespace Libchrome.Dbus
open Library Consuming

/-! ### Values of a type -/

def Value.string? : Value → Option String
  | .basic (.string text) => some text
  | _ => none

def Value.objectPath? : Value → Option String
  | .basic (.objectPath path) => some path
  | _ => none

def Value.stringEntry? : Value → Option (String × String)
  | .dictEntry (.string key) (.basic (.string text)) => some (key, text)
  | _ => none

def Value.bytesAndUint16? : Value → Option (List UInt8 × UInt16)
  | .struct fields =>
    match popArrayOfBytes fields with
    | (none, _) => none
    | (some bytes, struct_reader) => (popUint16 struct_reader).map fun popped => (bytes, popped.1)
  | _ => none

def PropertyKind.basicType : PropertyKind → Option DataType
  | .byte => some .byte
  | .bool => some .boolean
  | .int16 => some .int16
  | .uint16 => some .uint16
  | .int32 => some .int32
  | .uint32 => some .uint32
  | .int64 => some .int64
  | .uint64 => some .uint64
  | .double => some .double
  | .string => some .string
  | .objectPath => some .objectPath
  | _ => none

/-- What a value is as one of a property's type. -/
def PropertyKind.read : PropertyKind → Value → Option PropertyValue
  | .strings, .array elements => (elements.mapM Value.string?).map .texts
  | .objectPaths, .array elements => (elements.mapM Value.objectPath?).map .texts
  | .bytes, value => (popArrayOfBytes [value]).1.map .bytes
  | .stringMap, .array elements => (elements.mapM Value.stringEntry?).map fun entries =>
      .stringMap (entries.foldl (fun map entry => map.update entry.1 fun _ => entry.2) .empty)
  | .bytesAndUint16s, .array elements => (elements.mapM Value.bytesAndUint16?).map .bytesAndUint16s
  | kind, .basic value => if kind.basicType = some value.dataType then some (.basic value) else none
  | _, _ => none

/-- The value of the variant that comes next. -/
def delivered (kind : PropertyKind) : Reader → Option PropertyValue
  | .variant value :: _ => kind.read value
  | _ => none

/-- Popping succeeds where a value is delivered, and gives it. -/
def Pops (kind : PropertyKind) (reader : Reader) (result : Bool × PropertyValue × Reader) : Prop :=
  delivered kind reader = if result.1 then some result.2.1 else none

variable {fuel : Nat} {reader sub rest : Reader}

theorem popVariant_eq_some_iff :
    popVariant reader = some (sub, rest) ↔ ∃ value, reader = .variant value :: rest ∧ sub = [value] := by
  simp only [popVariant, popContainer_eq_some_iff]
  constructor
  · rintro ⟨value, rfl, typed, rfl⟩
    cases value with
    | basic value => cases value <;> cases typed
    | variant value => exact ⟨value, rfl, rfl⟩
    | array | struct | dictEntry => cases typed
  · rintro ⟨value, rfl, rfl⟩
    exact ⟨.variant value, rfl, rfl, rfl⟩

variable {kind : PropertyKind}

theorem delivered_of_popVariant_none (missing : popVariant reader = none) : delivered kind reader = none := by
  unfold delivered
  split
  next => cases missing
  next => rfl

theorem read_of_basicType {type : DataType} (typed : kind.basicType = some type) (value : Value) :
    kind.read value = (popBasic type [value]).map fun popped => .basic popped.1 := by
  cases value with
  | basic basic =>
    have read : kind.read (.basic basic) =
        if kind.basicType = some basic.dataType then some (.basic basic) else none := by
      cases kind <;> first | rfl | cases typed
    simp only [read, typed, popBasic, Option.some.injEq, eq_comm]
    split <;> rfl
  | array | struct | dictEntry | variant => cases kind <;> first | rfl | cases typed

theorem pops_basic {kind : PropertyKind} {type : DataType} (typed : kind.basicType = some type)
    (value : PropertyValue) : Pops kind reader (orOld value (popVariantOfBasic type reader)) := by
  unfold popVariantOfBasic
  split
  next missing => exact delivered_of_popVariant_none missing
  next inner rest popped =>
    obtain ⟨content, rfl, rfl⟩ := popVariant_eq_some_iff.mp popped
    unfold Pops delivered
    dsimp only
    rw [read_of_basicType typed]
    cases popBasic type [content] <;> rfl

/-- A failed pop of a flag writes false. -/
theorem pops_bool : Pops .bool reader ((popVariantOfBool reader).1, .basic (popVariantOfBool reader).2.1,
    (popVariantOfBool reader).2.2) := by
  have basic := @pops_basic reader .bool .boolean rfl (.basic (.boolean false))
  unfold popVariantOfBool
  unfold orOld at basic
  split at basic <;> simp_all [Pops]

theorem foldl_append_singleton {α : Type} (all front : List α) :
    all.foldl (fun front item => front ++ [item]) front = front ++ all := by
  induction all generalizing front with
  | nil => exact (List.append_nil front).symm
  | cons item rest ih => rw [List.foldl_cons, ih, List.append_assoc, List.singleton_append]

/-- A loop that gathers the elements of the array in a variant. -/
theorem pops_gathered {τ σ : Type} (take : Value → Option τ) (add : σ → τ → σ) (wrap : σ → PropertyValue) (state : σ)
    {elements rest : List Value}
    (read : kind.read (.array elements) = (elements.mapM take).map fun all => wrap (all.foldl add state))
    {walk : Walk (Bool × PropertyValue × Reader)}
    (gathers : Leaves walk fun result =>
      (∃ all, elements.mapM take = some all ∧ result = (true, wrap (all.foldl add state), rest)) ∨
        elements.mapM take = none ∧ result.1 = false) :
    Leaves walk (Pops kind (.variant (.array elements) :: rest)) := by
  refine Leaves.mono gathers fun result either => ?_
  unfold Pops delivered
  dsimp only
  rw [read]
  rcases either with ⟨all, gathered, rfl⟩ | ⟨missing, failed⟩
  · rw [gathered]
    rfl
  · rw [missing, failed]
    rfl

theorem popArray_none {value : Value} (other : ∀ elements, value ≠ .array elements) (rest : List Value) :
    popArray (value :: rest) = none := by
  cases found : popArray (value :: rest) with
  | none => rfl
  | some popped =>
    have same := popArray_eq_some_iff.mp found
    cases same
    exact absurd rfl (other _)

/-- `PopArrayOfStrings` and its like take the elements or fail at one. -/
theorem popArrayOf_gathers (take : Value → Option String) {pop : Reader → Option (String × Reader)}
    (pops : ∀ item rest, pop (item :: rest) = (take item).map fun text => (text, rest)) {elements rest : List Value} :
    Leaves (popArrayOf pop fuel (.array elements :: rest)) fun result =>
      (∃ all, elements.mapM take = some all ∧ result = (true, all, rest)) ∨
        elements.mapM take = none ∧ result.1 = false := by
  refine Leaves.mono (whileMore_gathers take (fun front text => front ++ [text]) (fun result => result.1 = false)
    fun item rest texts => ?_) fun result either => ?_
  · rw [pops]
    cases taken : take item with
    | none => exact Leaves.pure ⟨taken, rfl⟩
    | some text => exact Leaves.pure ⟨rfl, text, taken, rfl⟩
  · simpa only [foldl_append_singleton, List.nil_append, Value.contents] using either

theorem pops_texts (take : Value → Option String) {pop : Reader → Option (String × Reader)}
    (pops : ∀ item rest, pop (item :: rest) = (take item).map fun text => (text, rest))
    (read : ∀ elements, kind.read (.array elements) = (elements.mapM take).map .texts)
    (other : ∀ value, (∀ elements, value ≠ .array elements) → kind.read value = none) (value : PropertyValue) :
    Leaves (popTextsFromReader (popArrayOf pop) fuel value reader) (Pops kind reader) := by
  unfold popTextsFromReader
  split
  next missing => exact Leaves.pure (delivered_of_popVariant_none missing)
  next inner rest popped =>
    obtain ⟨content, rfl, rfl⟩ := popVariant_eq_some_iff.mp popped
    by_cases array : ∃ elements, content = .array elements
    · obtain ⟨elements, rfl⟩ := array
      refine pops_gathered take (fun front text => front ++ [text]) .texts [] ?_ ?_
      · simp only [read, foldl_append_singleton, List.nil_append]
      · refine Leaves.bind (popArrayOf_gathers take pops) fun result either => Leaves.pure ?_
        rcases either with ⟨all, gathered, rfl⟩ | failed
        · exact .inl ⟨all, gathered, by rw [foldl_append_singleton, List.nil_append]⟩
        · exact .inr failed
    · have other' (elements : List Value) (same : content = .array elements) : False := array ⟨elements, same⟩
      simp only [popArrayOf, popArray_none other']
      exact Leaves.pure (other content other')

/-- A container that is not one of the expected type, or whose elements are gathered. -/
theorem pops_overElements {τ σ : Type} (take : Value → Option τ) (add : σ → τ → σ) {wrap : σ → PropertyValue}
    {state : σ} {value : PropertyValue}
    (read : ∀ elements, kind.read (.array elements) = (elements.mapM take).map fun all => wrap (all.foldl add state))
    (other : ∀ value, (∀ elements, value ≠ .array elements) → kind.read value = none)
    {body : Reader → List Value → σ → Walk (Round Value σ (Bool × PropertyValue × Reader))}
    (round : ∀ reader item rest state, Leaves (body reader (item :: rest) state)
      (Gathers take add (fun result => result.1 = false) item rest state)) :
    Leaves (overElements body wrap state fuel value reader) (Pops kind reader) := by
  unfold overElements
  split
  next missing => exact Leaves.pure (delivered_of_popVariant_none missing)
  next inner rest popped =>
    obtain ⟨content, rfl, rfl⟩ := popVariant_eq_some_iff.mp popped
    split
    next missing =>
      refine Leaves.pure (other content ?_)
      rintro elements rfl
      cases missing
    next elements _ array =>
      have same := popArray_eq_some_iff.mp array
      cases same
      exact pops_gathered take add wrap state (read elements) (whileMore_gathers take add _ (round rest))

theorem pops_popValueFromReader (kind : PropertyKind) (value : PropertyValue) :
    Leaves (popValueFromReader fuel kind value reader) (Pops kind reader) := by
  cases kind with
  | strings =>
    refine pops_texts Value.string? (fun item rest => ?_) (fun _ => rfl) (fun value other => ?_) value
    · cases item with
      | basic value => cases value <;> rfl
      | array | struct | dictEntry | variant => rfl
    · cases value <;> first | rfl | exact absurd rfl (other _)
  | objectPaths =>
    refine pops_texts Value.objectPath? (fun item rest => ?_) (fun _ => rfl) (fun value other => ?_) value
    · cases item with
      | basic value => cases value <;> rfl
      | array | struct | dictEntry | variant => rfl
    · cases value <;> first | rfl | exact absurd rfl (other _)
  | stringMap =>
    refine pops_overElements Value.stringEntry? (fun map entry => map.update entry.1 fun _ => entry.2) (fun _ => rfl)
      (fun value other => ?_) fun reader item rest state => ?_
    · cases value <;> first | rfl | exact absurd rfl (other _)
    · cases item with
      | basic value => cases value <;> exact Leaves.pure ⟨rfl, rfl⟩
      | array | struct | variant => exact Leaves.pure ⟨rfl, rfl⟩
      | dictEntry key value =>
        cases key with
        | string key =>
          cases value with
          | basic value =>
            cases value with
            | string text => exact Leaves.pure ⟨rfl, (key, text), rfl, rfl⟩
            | _ => exact Leaves.pure ⟨rfl, rfl⟩
          | _ => exact Leaves.pure ⟨rfl, rfl⟩
        | _ => exact Leaves.pure ⟨rfl, rfl⟩
  | bytesAndUint16s =>
    refine pops_overElements Value.bytesAndUint16? (fun front pair => front ++ [pair]) (fun _ => ?_)
      (fun value other => ?_) fun reader item rest state => ?_
    · simp only [foldl_append_singleton, List.nil_append]
      rfl
    · cases value <;> first | rfl | exact absurd rfl (other _)
    · cases item with
      | basic value => cases value <;> exact Leaves.pure ⟨rfl, rfl⟩
      | array | dictEntry | variant => exact Leaves.pure ⟨rfl, rfl⟩
      | struct fields =>
        have entered : popStruct (.struct fields :: rest) = some (fields, rest) := rfl
        simp only [entered]
        rcases bytes : popArrayOfBytes fields with ⟨_ | popped, struct_reader⟩
        · exact Leaves.pure ⟨by simp only [Value.bytesAndUint16?, bytes], rfl⟩
        · dsimp only
          cases number : popUint16 struct_reader with
          | none => exact Leaves.pure ⟨by simp only [Value.bytesAndUint16?, bytes, number, Option.map_none], rfl⟩
          | some found =>
            exact Leaves.pure ⟨rfl, (popped, found.1), by
              simp only [Value.bytesAndUint16?, bytes, number, Option.map_some], rfl⟩
  | bytes =>
    refine Leaves.pure ?_
    unfold popBytesFromReader
    split
    next missing => exact delivered_of_popVariant_none missing
    next inner rest popped =>
      obtain ⟨content, rfl, rfl⟩ := popVariant_eq_some_iff.mp popped
      unfold Pops delivered PropertyKind.read
      dsimp only
      cases (popArrayOfBytes [content]).1 <;> rfl
  | bool => exact Leaves.pure pops_bool
  | byte | int16 | uint16 | int32 | uint32 | int64 | uint64 | double | string | objectPath =>
    exact Leaves.pure (pops_basic rfl value)

/-! ### The other entry points -/

namespace PropertySet

/-- `RegisterProperty`, with `PropertyBase::Init`; the values are at first those of the constructor. -/
def registerProperty (set : PropertySet) (name : String) (kind : PropertyKind) (value : PropertyValue) : PropertySet :=
  set.store name ⟨kind, name, false, value⟩

/-- What `OnGet` and `GetAndBlock` do with a response. -/
def receive (fuel : Nat) (set : PropertySet) (property : Property) (arguments : Reader) : Walk PropertySet := do
  let (popped, value, _) ← popValueFromReader fuel property.kind property.value arguments
  if popped then
    pure ((set.store property.name { property with value, is_valid := true }).notifyPropertyChanged property.name)
  else if property.is_valid then
    pure ((set.store property.name { property with value, is_valid := false }).notifyPropertyChanged property.name)
  else pure (set.store property.name { property with value })

/-- `OnGet`, less the callback of the caller. -/
def onGet (fuel : Nat) (set : PropertySet) (property : Property) (response : Option Reader) : Walk PropertySet :=
  response.elim (pure set) (set.receive fuel property)

/-- `GetAndBlock`, which does the same and returns whether there was a response. -/
def getAndBlock (fuel : Nat) (set : PropertySet) (property : Property) (response : Option Reader) :
    Walk (Bool × PropertySet) := do
  let set ← set.onGet fuel property response
  pure (response.isSome, set)

end PropertySet

/-- What reaches a property set. A `Get` is of a registered property; without a response it failed. -/
inductive Event where
  | changed (signal : Reader)
  | get (name : String) (response : Option Reader)
  | getAndBlock (name : String) (response : Option Reader)
  | getAll (response : Option Reader)

def PropertySet.handle (logged : Bool) (fuel : Nat) (set : PropertySet) : Event → Walk (Ending PropertySet)
  | .changed signal => set.changedReceived logged fuel signal
  | .get name response =>
    match set.properties_map.find name with
    | none => pure (.returned set)
    | some property => do
      let set ← set.onGet fuel property response
      pure (.returned set)
  | .getAndBlock name response =>
    match set.properties_map.find name with
    | none => pure (.returned set)
    | some property => do
      let (_, set) ← set.getAndBlock fuel property response
      pure (.returned set)
  | .getAll response => set.onGetAll logged fuel response

/-- The sets that a set becomes by handlers that return. -/
inductive Becomes (logged : Bool) (initial : PropertySet) : List Event → PropertySet → Prop where
  | start : Becomes logged initial [] initial
  | next {events : List Event} {set set' : PropertySet} {event : Event} {fuel : Nat} {passes : List Pass}
      (before : Becomes logged initial events set)
      (handled : set.handle logged fuel event = some (.returned set', passes)) :
      Becomes logged initial (events ++ [event]) set'

/-! ### The items of the messages -/

/-- A name, with what is offered as its value, or with nothing where it is invalidated. -/
structure Item where
  name : String
  offer : Option Reader

def Value.update? : Value → Option Item
  | .dictEntry (.string name) value => some ⟨name, some [value]⟩
  | _ => none

def updates : Reader → List Item
  | .array elements :: _ => elements.filterMap Value.update?
  | _ => []

def invalidations : List Value → List Item
  | .basic (.string name) :: rest => ⟨name, none⟩ :: invalidations rest
  | _ => []

/-- The items of the array of names that are invalidated. -/
def invalidationsOf : Reader → List Item
  | .array names :: _ => invalidations names
  | _ => []

/-- The same where they come behind the array of updates. -/
def invalidatedBehind : Reader → List Item
  | .array _ :: rest => invalidationsOf rest
  | _ => []

/-- The items of an event, in the order in which they are processed. -/
def itemsOf (interface : String) : Event → List Item
  | .changed (.basic (.string other) :: rest) =>
    if other ≠ interface then []
    else updates rest ++ invalidatedBehind rest
  | .changed _ => []
  | .get name response => (response.map fun arguments => ⟨name, some arguments⟩).toList
  | .getAndBlock name response => (response.map fun arguments => ⟨name, some arguments⟩).toList
  | .getAll response => response.elim [] updates

/-- What the last item that names a property delivered. -/
def lastDelivered (kind : PropertyKind) (name : String) (items : List Item) : Option PropertyValue :=
  (items.filter (·.name = name)).getLast?.bind fun item => item.offer.bind (delivered kind)

/-- The name where the item delivers a value, or where it makes invalid what the items `front` left valid. -/
def noticeOf (kindOf : String → Option PropertyKind) (front : List Item) (item : Item) : List String :=
  match kindOf item.name with
  | none => []
  | some kind =>
    if (item.offer.bind (delivered kind)).isSome ∨ (lastDelivered kind item.name front).isSome then [item.name] else []

def notices (kindOf : String → Option PropertyKind) (front : List Item) : List Item → List String
  | [] => []
  | item :: rest => noticeOf kindOf front item ++ notices kindOf (front ++ [item]) rest

def PropertySet.kindOf (set : PropertySet) (name : String) : Option PropertyKind :=
  (set.properties_map.find name).map Property.kind

/-- The properties and the calls of the callback are those of the items so far. -/
structure Reflects (kindOf : String → Option PropertyKind) (interface : String) (items : List Item)
    (set : PropertySet) : Prop where
  interface : set.interface = interface
  kinds : ∀ name, set.kindOf name = kindOf name
  names : ∀ name property, set.properties_map.find name = some property → property.name = name
  valid : ∀ name property, set.properties_map.find name = some property →
    property.is_valid = (lastDelivered property.kind name items).isSome
  value : ∀ name property, set.properties_map.find name = some property → property.is_valid = true →
    lastDelivered property.kind name items = some property.value
  changed : set.changed = if set.has_callback then notices kindOf [] items else []

section Keeping
variable {kindOf : String → Option PropertyKind} {interface : String} {items : List Item} {set set' : PropertySet}

theorem lastDelivered_snoc (kind : PropertyKind) (name : String) (items : List Item) (item : Item) :
    lastDelivered kind name (items ++ [item]) =
      if item.name = name then item.offer.bind (delivered kind) else lastDelivered kind name items := by
  unfold lastDelivered
  rw [List.filter_append]
  by_cases same : item.name = name <;> simp [same]

theorem notices_append (kindOf : String → Option PropertyKind) (front items : List Item) (item : Item) :
    notices kindOf front (items ++ [item]) = notices kindOf front items ++ noticeOf kindOf (front ++ items) item := by
  induction items generalizing front with
  | nil => simp [notices]
  | cons first rest ih => simp [notices, ih]

section
variable (reflects : Reflects kindOf interface items set)
include reflects

/-- An item of a registered property. -/
theorem Reflects.take {item : Item} {property : Property}
    (found : set.properties_map.find item.name = some property) {valid : Bool} {value : PropertyValue}
    (delivers : item.offer.bind (delivered property.kind) = if valid then some value else none)
    (find' : ∀ other, set'.properties_map.find other =
      if other = item.name then some { property with value, is_valid := valid } else set.properties_map.find other)
    (interface' : set'.interface = set.interface) (callback' : set'.has_callback = set.has_callback)
    (changed' : set'.changed =
      set.changed ++ if set.has_callback ∧ (valid ∨ property.is_valid) then [item.name] else []) :
    Reflects kindOf interface (items ++ [item]) set' where
  interface := interface'.trans reflects.interface
  kinds name := by
    rw [← reflects.kinds name, PropertySet.kindOf, PropertySet.kindOf, find']
    by_cases same : name = item.name <;> simp [same, found]
  names name other there := by
    rw [find'] at there
    split at there
    next same =>
      cases there
      exact (reflects.names item.name property found).trans same.symm
    next => exact reflects.names _ _ there
  valid name other there := by
    rw [find'] at there
    rw [lastDelivered_snoc]
    split at there
    next same =>
      cases there
      rw [if_pos same.symm, delivers]
      cases valid <;> rfl
    next differs =>
      rw [if_neg (Ne.symm differs)]
      exact reflects.valid _ _ there
  value name other there := by
    rw [find'] at there
    rw [lastDelivered_snoc]
    split at there
    next same =>
      cases there
      intro valid
      rw [if_pos same.symm, delivers]
      exact if_pos valid
    next differs =>
      rw [if_neg (Ne.symm differs)]
      exact reflects.value _ _ there
  changed := by
    have kind : kindOf item.name = some property.kind := by
      rw [← reflects.kinds, PropertySet.kindOf, found]
      rfl
    have was := reflects.valid _ _ found
    rw [changed', callback', reflects.changed, notices_append, List.nil_append, noticeOf, kind]
    dsimp only
    rw [delivers, ← was]
    cases set.has_callback <;> cases valid <;> cases property.is_valid <;> simp

theorem Reflects.skip {item : Item}
    (missing : set.properties_map.find item.name = none) : Reflects kindOf interface (items ++ [item]) set := by
  have other (name : String) (property : Property) (found : set.properties_map.find name = some property) :
      item.name ≠ name := by
    rintro rfl
    rw [missing] at found
    cases found
  refine ⟨reflects.interface, reflects.kinds, reflects.names, fun name property found => ?_,
    fun name property found => ?_, ?_⟩
  · rw [lastDelivered_snoc, if_neg (other _ _ found)]
    exact reflects.valid _ _ found
  · rw [lastDelivered_snoc, if_neg (other _ _ found)]
    exact reflects.value _ _ found
  · have kind : kindOf item.name = none := by
      rw [← reflects.kinds, PropertySet.kindOf, missing]
      rfl
    rw [reflects.changed, notices_append, noticeOf, kind, List.append_nil]

/-- What every place does with what was popped. -/
theorem Reflects.accept {item : Item} {property : Property}
    (found : set.properties_map.find item.name = some property) {popped : Bool} {value : PropertyValue}
    (delivers : item.offer.bind (delivered property.kind) = if popped then some value else none) :
    Reflects kindOf interface (items ++ [item])
      (if popped then (set.store item.name { property with value, is_valid := true }).notifyPropertyChanged item.name
      else if property.is_valid then
        (set.store item.name { property with value, is_valid := false }).notifyPropertyChanged item.name
      else set.store item.name { property with value }) := by
  refine reflects.take found delivers (fun other => ?_) ?_ ?_ ?_
  all_goals
    cases popped <;> cases valid : property.is_valid <;>
      simp [PropertySet.store, PropertySet.notifyPropertyChanged] <;> split_ifs <;> simp_all

theorem reflects_updateProperty (entry : Value) {key : Basic}
    {value : Value} (shape : entry = .dictEntry key value) :
    Leaves (set.updatePropertyFromReader fuel [.basic key, value]) fun result =>
      Reflects kindOf interface (items ++ entry.update?.toList) result.2 := by
  subst shape
  unfold PropertySet.updatePropertyFromReader
  split
  next missed =>
    refine Leaves.pure ?_
    cases key with
    | string name => cases missed
    | _ => simpa [Value.update?] using reflects
  next name rest popped =>
    have same := popString_eq_some_iff.mp popped
    cases same
    change Leaves _ fun result : Bool × PropertySet =>
      Reflects kindOf interface (items ++ [⟨name, some [value]⟩]) result.2
    split
    next missing => exact Leaves.pure (reflects.skip missing)
    next property found =>
      have named := reflects.names _ _ found
      refine Leaves.bind (pops_popValueFromReader property.kind property.value) fun result pops => ?_
      have accept := @Reflects.accept _ _ _ _ reflects ⟨name, some [value]⟩ property found _ _ pops
      dsimp only
      split_ifs with popped valid
      · exact Leaves.pure (by simpa [popped, named] using accept)
      · exact Leaves.pure (by simpa [popped, valid, named] using accept)
      · exact Leaves.pure (by simpa [popped, valid, named] using accept)

theorem reflects_receive {property : Property}
    (found : set.properties_map.find property.name = some property) :
    Leaves (set.receive fuel property reader)
      (Reflects kindOf interface (items ++ [⟨property.name, some reader⟩])) := by
  refine Leaves.bind (pops_popValueFromReader property.kind property.value) fun result pops => ?_
  have accept := @Reflects.accept _ _ _ _ reflects ⟨property.name, some reader⟩ property found _ _ pops
  dsimp only
  split_ifs with popped valid
  · exact Leaves.pure (by simpa [popped] using accept)
  · exact Leaves.pure (by simpa [popped, valid] using accept)
  · exact Leaves.pure (by simpa [popped, valid] using accept)

theorem reflects_updateProperties :
    Leaves (set.updatePropertiesFromReader fuel reader) fun result =>
      Reflects kindOf interface (items ++ updates reader) result.2.1 ∧
        (∀ elements rest, reader = .array elements :: rest → result.2.2 = rest) ∧
        ((∀ elements rest, reader ≠ .array elements :: rest) → result.2.2 = reader) := by
  unfold PropertySet.updatePropertiesFromReader
  split
  next missed =>
    refine Leaves.pure ⟨?_, ?_, fun _ => rfl⟩
    · unfold updates
      split
      next => cases missed
      next => simpa using reflects
    · rintro elements rest rfl
      cases missed
  next elements rest popped =>
    have same := popArray_eq_some_iff.mp popped
    subst same
    refine whileMore_continues (fun remaining set => ∃ front, elements = front ++ remaining ∧
      Reflects kindOf interface (items ++ front.filterMap Value.update?) set) ?_ ?_ ?_
    · exact ⟨[], rfl, by simpa using reflects⟩
    · intro item remaining set done
      obtain ⟨front, split_, reflects⟩ := done
      split
      next => exact Leaves.pure ⟨front, split_, reflects⟩
      next entry behind taken =>
        obtain ⟨key, value, same, rfl⟩ := popDictEntry_eq_some_iff.mp taken
        cases same
        refine Leaves.bind (reflects_updateProperty reflects _ rfl) fun result done => Leaves.pure ?_
        refine ⟨front ++ [.dictEntry key value], by rw [split_, List.append_assoc, List.singleton_append], ?_⟩
        rw [List.filterMap_append, ← List.append_assoc]
        cases taken : Value.update? (.dictEntry key value) <;> simpa [taken] using done
    · rintro set ⟨front, split_, reflects⟩
      refine ⟨?_, fun _ _ same => by cases same; rfl, fun other => absurd rfl (other elements rest)⟩
      rw [List.append_nil] at split_
      subst split_
      exact reflects

theorem reflects_invalidateProperties :
    Leaves (set.invalidatePropertiesFromReader fuel reader) fun result =>
      Reflects kindOf interface (items ++ invalidationsOf reader) result.2.1 := by
  unfold PropertySet.invalidatePropertiesFromReader
  split
  next missed =>
    refine Leaves.pure ?_
    unfold invalidationsOf
    split
    next => cases missed
    next => simpa using reflects
  next elements rest popped =>
    have same := popArray_eq_some_iff.mp popped
    subst same
    refine whileMore_continues (fun remaining set => ∃ front,
      invalidations elements = front ++ invalidations remaining ∧ Reflects kindOf interface (items ++ front) set)
      ?_ ?_ ?_
    · exact ⟨[], rfl, by simpa using reflects⟩
    · intro item remaining set done
      obtain ⟨front, split_, reflects⟩ := done
      split
      next missed =>
        refine Leaves.pure ?_
        have stops : invalidations (item :: remaining) = [] := by
          unfold invalidations
          split
          next same => cases same; cases missed
          next => rfl
        rw [stops, List.append_nil] at split_
        change Reflects kindOf interface (items ++ invalidations elements) set
        exact split_ ▸ reflects
      next name behind taken =>
        have same := popString_eq_some_iff.mp taken
        cases same
        have split_ : invalidations elements = front ++ [⟨name, none⟩] ++ invalidations remaining := by
          rw [split_, List.append_assoc]
          rfl
        split
        next missing =>
          refine Leaves.pure ⟨front ++ [⟨name, none⟩], split_, ?_⟩
          rw [← List.append_assoc]
          exact reflects.skip missing
        next property found =>
          have named := reflects.names _ _ found
          have accept := @Reflects.accept _ _ _ _ reflects ⟨name, none⟩ property found false property.value rfl
          rw [List.append_assoc] at accept
          split_ifs with valid
          · exact Leaves.pure ⟨_, split_, by simpa [valid, named] using accept⟩
          · refine Leaves.pure ⟨_, split_, ?_⟩
            have invalid : property.is_valid = false := Bool.eq_false_iff.mpr valid
            rw [← List.append_assoc]
            refine @Reflects.take _ _ _ _ _ reflects ⟨name, none⟩ property found false property.value rfl
              (fun other => ?_) rfl rfl (by simp [invalid])
            split
            next same => rw [same, ← invalid]; exact found
            next => rfl
    · rintro set ⟨front, split_, reflects⟩
      have none : invalidations [] = [] := rfl
      rw [none, List.append_nil] at split_
      change Reflects kindOf interface (items ++ invalidations elements) set
      exact split_ ▸ reflects

end

theorem invalidationsOf_behind {behind : Reader}
    (array : ∀ elements rest, reader = .array elements :: rest → behind = rest)
    (other : (∀ elements rest, reader ≠ .array elements :: rest) → behind = reader) :
    invalidationsOf behind = invalidatedBehind reader := by
  unfold invalidatedBehind
  split
  next elements rest => rw [array elements rest rfl]
  next different => rw [other different, invalidationsOf.eq_2 reader different]

/-- An event that returns adds its items. -/
theorem reflects_handle {logged : Bool} (reflects : Reflects kindOf interface items set) (event : Event) :
    Leaves (set.handle logged fuel event) fun ending =>
      ∀ set', ending = .returned set' → Reflects kindOf interface (items ++ itemsOf interface event) set' := by
  have got {name : String} {property : Property} (found : set.properties_map.find name = some property)
      (response : Option Reader) : Leaves (set.onGet fuel property response) (Reflects kindOf interface
        (items ++ (response.map fun arguments => (⟨name, some arguments⟩ : Item)).toList)) := by
    have named := reflects.names _ _ found
    subst named
    cases response with
    | none => exact Leaves.pure (by simpa using reflects)
    | some arguments => exact reflects_receive reflects found
  have unknown {name : String} (missing : set.properties_map.find name = none) (response : Option Reader) :
      Reflects kindOf interface
        (items ++ (response.map fun arguments => (⟨name, some arguments⟩ : Item)).toList) set := by
    cases response with
    | none => simpa using reflects
    | some arguments => exact reflects.skip missing
  cases event with
  | changed signal =>
    simp only [PropertySet.handle, PropertySet.changedReceived]
    split
    next missed =>
      have none : itemsOf interface (.changed signal) = [] := by
        unfold itemsOf
        split <;> simp_all [popString, popBasic, Basic.dataType]
      refine Leaves.bind (Leaves.any _) fun survives _ => Leaves.pure fun set' same => ?_
      cases survives <;> cases same
      rw [none, List.append_nil]
      exact reflects
    next other rest popped =>
      have same := popString_eq_some_iff.mp popped
      subst same
      rw [reflects.interface]
      split
      next differs =>
        refine Leaves.pure fun set' same => ?_
        cases same
        simpa [itemsOf, differs] using reflects
      next own =>
        refine Leaves.bind (reflects_updateProperties reflects) fun result done => ?_
        refine Leaves.bind (Leaves.any _) fun survives _ => ?_
        split
        next =>
          refine Leaves.bind (reflects_invalidateProperties done.1) fun result' done' => ?_
          refine Leaves.bind (Leaves.any _) fun survives _ => Leaves.pure fun set' same => ?_
          cases survives <;> cases same
          rw [invalidationsOf_behind done.2.1 done.2.2, List.append_assoc] at done'
          rw [itemsOf, if_neg own]
          exact done'
        next => exact Leaves.pure fun set' same => by cases same
  | get name response =>
    simp only [PropertySet.handle]
    split
    next missing => exact Leaves.pure fun set' same => by cases same; exact unknown missing response
    next property found =>
      exact Leaves.bind (got found response) fun set done => Leaves.pure fun set' same => by cases same; exact done
  | getAndBlock name response =>
    simp only [PropertySet.handle]
    split
    next missing => exact Leaves.pure fun set' same => by cases same; exact unknown missing response
    next property found =>
      refine Leaves.bind (Leaves.bind (got found response) fun set done =>
        (Leaves.pure done : Leaves _ fun result : Bool × PropertySet => Reflects kindOf interface _ result.2)) ?_
      exact fun result done => Leaves.pure fun set' same => by cases same; exact done
  | getAll response =>
    cases response with
    | none => exact Leaves.pure fun set' same => by cases same; simpa [itemsOf] using reflects
    | some arguments =>
      refine Leaves.bind (reflects_updateProperties reflects) fun result done => ?_
      refine Leaves.bind (Leaves.any _) fun survives _ => Leaves.pure fun set' same => ?_
      cases survives <;> cases same
      exact done.1

end Keeping

/-! ### Runs -/

/-- The set to which the properties of a list were registered. -/
def PropertySet.ofRegistered (interface : String) (has_callback : Bool)
    (registered : List (String × PropertyKind × PropertyValue)) : PropertySet :=
  registered.foldl (fun set entry => set.registerProperty entry.1 entry.2.1 entry.2.2)
    ⟨interface, .empty, has_callback, []⟩

/-- The arrays of properties in an event hold dict entries. -/
def Event.Fits (interface : String) : Event → Prop
  | .changed signal => ∀ rest, signal = .basic (.string interface) :: rest → PropertiesFit rest
  | .getAll response => ∀ arguments ∈ response, PropertiesFit arguments
  | _ => True

theorem reflects_ofRegistered (interface : String) (has_callback : Bool)
    (registered : List (String × PropertyKind × PropertyValue)) :
    Reflects (PropertySet.ofRegistered interface has_callback registered).kindOf interface []
      (PropertySet.ofRegistered interface has_callback registered) := by
  have fresh : ∀ set : PropertySet, set.interface = interface ∧ set.changed = [] →
      (∀ name property, set.properties_map.find name = some property → property.name = name ∧ ¬property.is_valid) →
      Reflects (registered.foldl (fun set entry => set.registerProperty entry.1 entry.2.1 entry.2.2) set).kindOf
        interface [] (registered.foldl (fun set entry => set.registerProperty entry.1 entry.2.1 entry.2.2) set) := by
    induction registered with
    | nil =>
      intro set plain invalid
      refine ⟨plain.1, fun _ => rfl, fun name property found => (invalid name property found).1,
        fun name property found => Bool.eq_false_iff.mpr (invalid name property found).2,
        fun name property found valid => absurd valid (invalid name property found).2, ?_⟩
      rw [List.foldl_nil, plain.2, notices, ite_self]
    | cons entry rest ih =>
      intro set plain invalid
      refine ih _ plain fun name property found => ?_
      simp only [PropertySet.registerProperty, PropertySet.store, OrderedMap.find_update] at found
      split at found
      next same =>
        cases found
        exact ⟨same.symm, Bool.false_ne_true⟩
      next => exact invalid name property found
  exact fresh ⟨interface, .empty, has_callback, []⟩ ⟨rfl, rfl⟩ fun name property found => by cases found

theorem handle_terminates {logged : Bool} {set : PropertySet} {event : Event} (fits : event.Fits set.interface) :
    Terminates fun fuel => set.handle logged fuel event := by
  have got (property : Property) (response : Option Reader) :
      Terminates fun fuel => set.onGet fuel property response := by
    cases response with
    | none => exact ⟨0, Ends.pure trivial⟩
    | some arguments =>
      refine ⟨sizes arguments + 1, Ends.bind (popValueFromReader_ends _ _ (Nat.lt_succ_self _)) fun result _ => ?_⟩
      dsimp only
      split_ifs
      all_goals exact Ends.pure trivial
  cases event with
  | changed signal => exact PropertySet.changedReceived_terminates_iff.mpr fits
  | getAll response => exact PropertySet.onGetAll_terminates_iff.mpr fits
  | get name response =>
    simp only [PropertySet.handle]
    split
    next => exact ⟨0, Ends.pure trivial⟩
    next property _ =>
      obtain ⟨fuel, ends⟩ := got property response
      exact ⟨fuel, Ends.bind ends fun _ _ => Ends.pure trivial⟩
  | getAndBlock name response =>
    simp only [PropertySet.handle]
    split
    next => exact ⟨0, Ends.pure trivial⟩
    next property _ =>
      obtain ⟨fuel, ends⟩ := got property response
      have blocked : Ends (set.getAndBlock fuel property response) fun _ => True :=
        Ends.bind ends fun _ _ => Ends.pure trivial
      exact ⟨fuel, Ends.bind blocked fun _ _ => Ends.pure trivial⟩

/-- In every run the properties are those of the last items that name them, and an event that fits is handled. -/
theorem validity_of_becomes {interface : String} {has_callback logged : Bool}
    {registered : List (String × PropertyKind × PropertyValue)} {events : List Event} {set : PropertySet}
    (becomes : Becomes logged (PropertySet.ofRegistered interface has_callback registered) events set) :
    Reflects (PropertySet.ofRegistered interface has_callback registered).kindOf interface
        (events.flatMap (itemsOf interface)) set ∧
      ∀ event : Event, event.Fits interface → Terminates fun fuel => set.handle logged fuel event := by
  have reflects : Reflects (PropertySet.ofRegistered interface has_callback registered).kindOf interface
      (events.flatMap (itemsOf interface)) set := by
    induction becomes with
    | start => exact reflects_ofRegistered interface has_callback registered
    | next before handled ih =>
      rw [List.flatMap_append, List.flatMap_singleton]
      exact reflects_handle ih _ _ _ handled _ rfl
  exact ⟨reflects, fun event fits => handle_terminates (reflects.interface ▸ fits)⟩

/-- A byte that `Get` delivers. -/
theorem validity_of_becomes_get :
    Reflects (PropertySet.ofRegistered "i" true [("a", .byte, .basic (.byte 0))]).kindOf "i"
        [⟨"a", some [.variant (.basic (.byte 5))]⟩]
        ⟨"i", ⟨[("a", ⟨.byte, "a", true, .basic (.byte 5)⟩)], List.pairwise_singleton _ _⟩, true, ["a"]⟩ ∧
      ∀ event : Event, event.Fits "i" → Terminates fun fuel => PropertySet.handle false fuel
        ⟨"i", ⟨[("a", ⟨.byte, "a", true, .basic (.byte 5)⟩)], List.pairwise_singleton _ _⟩, true, ["a"]⟩ event :=
  @validity_of_becomes "i" true false [("a", .byte, .basic (.byte 0))] [.get "a" (some [.variant (.basic (.byte 5))])] _
    (@Becomes.next _ _ [] _ _ (.get "a" (some [.variant (.basic (.byte 5))])) 0 _ .start rfl)

end Libchrome.Dbus
