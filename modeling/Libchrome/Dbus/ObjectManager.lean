import Libchrome.Dbus.PropertySet

/-!
# The objects of a service (`object_manager.cc`)

The interfaces of the clients are outside: they make the property sets, and are told of the objects
that come and go.
-/

namespace Libchrome.Dbus
open Library Consuming

/-- `ObjectManager::Interface`, by its `CreateProperties`. -/
structure Interface where
  createProperties : (object_path interface_name : String) → PropertySet

/-- `ObjectManager::Object`. -/
structure Object where
  properties_map : OrderedMap String PropertySet

/-- What an interface is told. -/
inductive ObjectEvent where
  | objectAdded (object_path interface_name : String)
  | objectRemoved (object_path interface_name : String)

structure ObjectManager where
  interface_map : OrderedMap String Interface
  object_map : OrderedMap String Object
  events : List ObjectEvent

namespace ObjectManager

def addInterface (fuel : Nat) (manager : ObjectManager) (object_path interface_name : String) (reader : Reader) :
    Walk ObjectManager :=
  match manager.interface_map.find interface_name with
  | none => pure manager
  | some interface => do
    let object := (manager.object_map.find object_path).getD ⟨OrderedMap.empty⟩
    let interface_added := (object.properties_map.find interface_name).isNone
    let property_set :=
      (object.properties_map.find interface_name).getD (interface.createProperties object_path interface_name)
    let (_, property_set, _) ← property_set.updatePropertiesFromReader fuel reader
    let object := { object with properties_map := object.properties_map.update interface_name fun _ => property_set }
    let manager := { manager with object_map := manager.object_map.update object_path fun _ => object }
    if interface_added then
      pure { manager with events := manager.events ++ [.objectAdded object_path interface_name] }
    else pure manager

/-- The loop of `UpdateObject` and of `OnGetManagedObjects`, which goes on with the same element where it
is no dict entry. -/
def updateEntries (pop : Reader → Option (String × Reader))
    (update : ObjectManager → String → Reader → Walk ObjectManager) (fuel : Nat) (manager : ObjectManager)
    (reader : Reader) : Walk ObjectManager :=
  match popArray reader with
  | none => pure manager
  | some (array_reader, _) =>
    whileMore
      (fun array_reader manager =>
        match popDictEntry array_reader with
        | none => pure (.again array_reader manager)
        | some (dict_entry_reader, array_reader) =>
          match pop dict_entry_reader with
          | none => pure (.again array_reader manager)
          | some (key, dict_entry_reader) => do
            let manager ← update manager key dict_entry_reader
            pure (.again array_reader manager))
      id fuel array_reader manager

def updateObject (fuel : Nat) (manager : ObjectManager) (object_path : String) (reader : Reader) : Walk ObjectManager :=
  updateEntries popString
    (fun manager interface_name reader => manager.addInterface fuel object_path interface_name reader) fuel manager
    reader

def removeInterface (manager : ObjectManager) (object_path interface_name : String) : ObjectManager :=
  match manager.object_map.find object_path with
  | none => manager
  | some object =>
    if (object.properties_map.find interface_name).isNone then manager
    else
      let events :=
        if (manager.interface_map.find interface_name).isSome then
          manager.events ++ [.objectRemoved object_path interface_name]
        else manager.events
      let properties_map := object.properties_map.erase interface_name
      if properties_map.entries = [] then
        { manager with object_map := manager.object_map.erase object_path, events }
      else { manager with object_map := manager.object_map.update object_path fun _ => ⟨properties_map⟩, events }

/-- `OnGetManagedObjects`; there is no response where the call failed. -/
def onGetManagedObjects (fuel : Nat) (manager : ObjectManager) (response : Option Reader) : Walk ObjectManager :=
  match response with
  | none => pure manager
  | some reader =>
    updateEntries popObjectPath (fun manager object_path reader => manager.updateObject fuel object_path reader) fuel
      manager reader

def interfacesAddedReceived (logged : Bool) (fuel : Nat) (manager : ObjectManager) (signal : Reader) :
    Walk (Ending ObjectManager) :=
  match popObjectPath signal with
  | none => do
    let survives ← logWarning logged fuel signal
    pure (endWith survives manager)
  | some (object_path, reader) => do
    let manager ← manager.updateObject fuel object_path reader
    pure (.returned manager)

def interfacesRemovedReceived (logged : Bool) (fuel : Nat) (manager : ObjectManager) (signal : Reader) :
    Walk (Ending ObjectManager) :=
  match popObjectPath signal with
  | none => do
    let survives ← logWarning logged fuel signal
    pure (endWith survives manager)
  | some (object_path, reader) => do
    let (popped, interface_names, _) ← popArrayOfStrings fuel reader
    if popped then
      pure (.returned (interface_names.foldl (fun manager name => manager.removeInterface object_path name) manager))
    else
      let survives ← logWarning logged fuel signal
      pure (endWith survives manager)

/-- The loop over the properties of an entry that names a known interface can consume them. -/
def InterfaceFits (manager : ObjectManager) : Value → Prop
  | .dictEntry (.string name) value => (manager.interface_map.find name).isSome → PropertiesFit [value]
  | .dictEntry _ _ => True
  | _ => False

/-- Where an array comes first, the loops over its elements can consume them. -/
def InterfacesFit (manager : ObjectManager) (reader : Reader) : Prop :=
  ∀ elements rest, reader = .array elements :: rest → ∀ element ∈ elements, manager.InterfaceFits element

/-- The loop over the interfaces of an entry that names an object can consume them. -/
def ObjectFits (manager : ObjectManager) : Value → Prop
  | .dictEntry (.objectPath _) value => manager.InterfacesFit [value]
  | .dictEntry _ _ => True
  | _ => False

def ObjectsFit (manager : ObjectManager) (reader : Reader) : Prop :=
  ∀ elements rest, reader = .array elements :: rest → ∀ element ∈ elements, manager.ObjectFits element

section Ending

variable {logged : Bool} {fuel : Nat} {manager other : ObjectManager} {reader : Reader} {object_path name : String}

/-- An element is a dict entry, and what is behind its key fits. -/
def EntryFits (pop : Reader → Option (String × Reader)) (fits : String → Reader → Prop) (value : Value) : Prop :=
  value.IsDictEntry ∧ ∀ key rest, pop value.contents = some (key, rest) → fits key rest

theorem interfaceFits_iff (value : Value) :
    manager.InterfaceFits value ↔
      EntryFits popString (fun name rest => (manager.interface_map.find name).isSome → PropertiesFit rest) value := by
  cases value with
  | dictEntry key value =>
    simp only [EntryFits, Value.IsDictEntry, true_and, Value.contents, popString_eq_some_iff]
    cases key with
    | string name =>
      constructor
      · intro fits _ _ same
        cases same
        exact fits
      · exact fun fits => fits name [value] rfl
    | _ => simp [InterfaceFits]
  | basic | array | struct | variant => simp only [InterfaceFits, EntryFits, Value.IsDictEntry, false_and]

theorem objectFits_iff (value : Value) :
    manager.ObjectFits value ↔ EntryFits popObjectPath (fun _ rest => manager.InterfacesFit rest) value := by
  cases value with
  | dictEntry key value =>
    simp only [EntryFits, Value.IsDictEntry, true_and, Value.contents, popObjectPath_eq_some_iff]
    cases key with
    | objectPath path =>
      constructor
      · intro fits _ _ same
        cases same
        exact fits
      · exact fun fits => fits path [value] rfl
    | _ => simp [ObjectFits]
  | basic | array | struct | variant => simp only [ObjectFits, EntryFits, Value.IsDictEntry, false_and]

theorem InterfacesFit.congr (same : manager.interface_map = other.interface_map) (reader : Reader) :
    manager.InterfacesFit reader ↔ other.InterfacesFit reader := by
  simp only [InterfacesFit, interfaceFits_iff, same]

section Entries

variable {pop : Reader → Option (String × Reader)} {update : ObjectManager → String → Reader → Walk ObjectManager}
  (fits : String → Reader → Prop)

theorem updateEntries_ends
    (popped : ∀ {reader key rest}, pop reader = some (key, rest) → sizes rest ≤ sizes reader)
    (updates : ∀ {current key rest}, current.interface_map = manager.interface_map → fits key rest →
      sizes rest < fuel → Ends (update current key rest) fun after => after.interface_map = current.interface_map)
    (fit : ∀ elements rest, reader = .array elements :: rest → ∀ element ∈ elements, EntryFits pop fits element)
    (enough : sizes reader < fuel) :
    Ends (updateEntries pop update fuel manager reader) fun after => after.interface_map = manager.interface_map := by
  unfold updateEntries
  split
  next => exact Ends.pure rfl
  next elements rest array =>
    rw [popArray_eq_some_iff] at array
    subst array
    rw [sizes, Value.size] at enough
    have short := length_le_sizes elements
    apply whileMore_ends (fun after => after.interface_map = manager.interface_map) (by omega) rfl
    · intro item member rest current kept
      have fine := fit elements _ rfl item member
      split
      next missed =>
        cases item with
        | dictEntry key value => cases missed
        | basic | array | struct | variant => exact fine.1.elim
      next entry remaining taken =>
        have whole := size_le_sizes member
        obtain ⟨value, same, -, rfl⟩ := popContainer_eq_some_iff.mp taken
        cases same
        split
        next => exact Ends.pure ⟨rfl, kept⟩
        next key behind named =>
          have inside := sizes_contents_lt item
          have later := popped named
          refine Ends.bind (updates kept (fine.2 key behind named) (by omega)) ?_
          intro after same
          exact Ends.pure ⟨rfl, same.trans kept⟩
    · exact fun _ kept => kept

theorem updateEntries_leaves
    (updates : ∀ {current key rest}, current.interface_map = manager.interface_map →
      Leaves (update current key rest) fun after => fits key rest ∧ after.interface_map = current.interface_map) :
    Leaves (updateEntries pop update fuel manager reader) fun after =>
      (∀ elements rest, reader = .array elements :: rest → ∀ element ∈ elements, EntryFits pop fits element) ∧
        after.interface_map = manager.interface_map := by
  unfold updateEntries
  split
  next missed =>
    refine Leaves.pure ⟨?_, rfl⟩
    intro elements rest same
    rw [same] at missed
    cases missed
  next elements rest array =>
    rw [popArray_eq_some_iff] at array
    subst array
    refine Leaves.mono (whileMore_leaves (EntryFits pop fits)
      (fun after => after.interface_map = manager.interface_map)
      (fun after => after.interface_map = manager.interface_map) rfl ?_ ?_) ?_
    · intro item rest current kept
      split
      next => exact Leaves.pure ⟨Or.inr rfl, kept⟩
      next entry remaining taken =>
        obtain ⟨key, value, same, rfl⟩ := popDictEntry_eq_some_iff.mp taken
        cases same
        split
        next unnamed =>
          have fine : EntryFits pop fits (.dictEntry key value) := by
            refine ⟨trivial, ?_⟩
            intro name rest named
            rw [Value.contents, unnamed] at named
            cases named
          exact Leaves.pure ⟨Or.inl ⟨rfl, fine⟩, kept⟩
        next name behind named =>
          refine Leaves.bind (updates kept) ?_
          intro after added
          have fine : EntryFits pop fits (.dictEntry key value) := by
            refine ⟨trivial, ?_⟩
            intro other rest again
            rw [Value.contents, named] at again
            cases again
            exact added.1
          exact Leaves.pure ⟨Or.inl ⟨rfl, fine⟩, added.2.trans kept⟩
    · exact fun _ kept => kept
    · intro after all
      refine ⟨?_, all.2⟩
      intro others rest same
      cases same
      exact all.1

end Entries

theorem addInterface_ends (fits : (manager.interface_map.find name).isSome → PropertiesFit reader)
    (enough : sizes reader < fuel) :
    Ends (manager.addInterface fuel object_path name reader) fun after =>
      after.interface_map = manager.interface_map := by
  unfold addInterface
  split
  next => exact Ends.pure rfl
  next interface known =>
    rw [known] at fits
    refine Ends.bind (updatePropertiesFromReader_ends (fits rfl) enough) ?_
    intro updated _
    dsimp only
    split
    next => exact Ends.pure rfl
    next => exact Ends.pure rfl

theorem addInterface_leaves :
    Leaves (manager.addInterface fuel object_path name reader) fun after =>
      ((manager.interface_map.find name).isSome → PropertiesFit reader) ∧
        after.interface_map = manager.interface_map := by
  unfold addInterface
  split
  next unknown =>
    rw [unknown]
    exact Leaves.pure ⟨fun known => absurd known Bool.false_ne_true, rfl⟩
  next =>
    refine Leaves.bind updatePropertiesFromReader_leaves ?_
    intro updated fit
    dsimp only
    split
    next => exact Leaves.pure ⟨fun _ => fit, rfl⟩
    next => exact Leaves.pure ⟨fun _ => fit, rfl⟩

theorem updateObject_ends (fit : manager.InterfacesFit reader) (enough : sizes reader < fuel) :
    Ends (manager.updateObject fuel object_path reader) fun after => after.interface_map = manager.interface_map := by
  refine updateEntries_ends _ ?_ ?_ (fun elements rest same element member =>
    (interfaceFits_iff element).mp (fit elements rest same element member)) enough
  · intro reader name rest popped
    rw [popString_eq_some_iff.mp popped]
    exact Nat.le_add_left _ _
  · intro current name rest kept fits within
    exact addInterface_ends (kept ▸ fits) within

theorem updateObject_leaves :
    Leaves (manager.updateObject fuel object_path reader) fun after =>
      manager.InterfacesFit reader ∧ after.interface_map = manager.interface_map := by
  simp only [InterfacesFit, interfaceFits_iff]
  refine updateEntries_leaves _ ?_
  intro current name rest kept
  rw [← kept]
  exact addInterface_leaves

theorem interfacesAddedReceived_terminates_iff {signal : Reader} :
    Terminates (fun fuel => manager.interfacesAddedReceived logged fuel signal) ↔
      ∀ path rest, signal = .basic (.objectPath path) :: rest → manager.InterfacesFit rest := by
  constructor
  · rintro ⟨fuel, ended⟩ path rest rfl
    have popped : popObjectPath (.basic (.objectPath path) :: rest) = some (path, rest) :=
      popObjectPath_eq_some_iff.mpr rfl
    simp only [interfacesAddedReceived, popped] at ended
    exact (ended.first updateObject_leaves).choose_spec.1
  · intro fits
    refine ⟨sizes signal + 1, ?_⟩
    have enough := Nat.lt_succ_self (sizes signal)
    unfold interfacesAddedReceived
    split
    next => exact Ends.bind (logWarning_ends enough) fun _ _ => Ends.pure trivial
    next path rest popped =>
      rw [popObjectPath_eq_some_iff] at popped
      have within : sizes rest < sizes signal + 1 := by
        rw [popped, sizes]
        omega
      exact Ends.bind (updateObject_ends (fits path rest popped) within) fun _ _ => Ends.pure trivial

theorem interfacesRemovedReceived_ends {signal : Reader} (enough : sizes signal < fuel) :
    Ends (manager.interfacesRemovedReceived logged fuel signal) fun _ => True := by
  unfold interfacesRemovedReceived
  split
  next => exact Ends.bind (logWarning_ends enough) fun _ _ => Ends.pure trivial
  next path rest popped =>
    rw [popObjectPath_eq_some_iff] at popped
    have within : sizes rest < fuel := by
      rw [popped, sizes] at enough
      omega
    refine Ends.bind (popArrayOfStrings_ends within) ?_
    intro names _
    dsimp only
    split
    next => exact Ends.pure trivial
    next => exact Ends.bind (logWarning_ends enough) fun _ _ => Ends.pure trivial

theorem onGetManagedObjects_terminates_iff {response : Option Reader} :
    Terminates (fun fuel => manager.onGetManagedObjects fuel response) ↔
      ∀ arguments ∈ response, manager.ObjectsFit arguments := by
  cases response with
  | none => exact ⟨fun _ _ member => (Option.not_mem_none _ member).elim, fun _ => ⟨0, Ends.pure trivial⟩⟩
  | some arguments =>
    simp only [Option.mem_some_iff, forall_eq', ObjectsFit, objectFits_iff, onGetManagedObjects]
    constructor
    · rintro ⟨fuel, ended⟩
      refine (ended.and_leaves (updateEntries_leaves (fun _ rest => manager.InterfacesFit rest) ?_)).choose_spec.1
      intro current path rest kept
      refine Leaves.mono updateObject_leaves ?_
      intro after both
      exact ⟨(InterfacesFit.congr kept rest).mp both.1, both.2⟩
    · intro fit
      have enough := Nat.lt_succ_self (sizes arguments)
      refine ⟨sizes arguments + 1, Ends.mono (updateEntries_ends _ ?_ ?_ fit enough) fun _ _ => trivial⟩
      · intro reader path rest popped
        rw [popObjectPath_eq_some_iff.mp popped]
        exact Nat.le_add_left _ _
      · intro current path rest kept fits within
        exact updateObject_ends ((InterfacesFit.congr kept rest).mpr fits) within

end Ending

/-- The consumers of messages terminate, with every pass of a loop consuming an element, exactly where
the arrays that they take for dictionaries are empty or have dict entries. -/
theorem consumers_terminate_iff (logged : Bool) (set : PropertySet) (manager : ObjectManager) (signal : Reader)
    (response : Option Reader) :
    (Terminates (fun fuel => set.changedReceived logged fuel signal) ↔
      ∀ rest, signal = .basic (.string set.interface) :: rest → PropertiesFit rest) ∧
    (Terminates (fun fuel => set.onGetAll logged fuel response) ↔ ∀ arguments ∈ response, PropertiesFit arguments) ∧
    (Terminates (fun fuel => manager.interfacesAddedReceived logged fuel signal) ↔
      ∀ path rest, signal = .basic (.objectPath path) :: rest → manager.InterfacesFit rest) ∧
    Terminates (fun fuel => manager.interfacesRemovedReceived logged fuel signal) ∧
    (Terminates (fun fuel => manager.onGetManagedObjects fuel response) ↔
      ∀ arguments ∈ response, manager.ObjectsFit arguments) :=
  ⟨PropertySet.changedReceived_terminates_iff, PropertySet.onGetAll_terminates_iff,
    interfacesAddedReceived_terminates_iff, ⟨_, interfacesRemovedReceived_ends (Nat.lt_succ_self _)⟩,
    onGetManagedObjects_terminates_iff⟩

/-- A signal with a path and an array of strings keeps a manager without interfaces busy for ever. -/
theorem interfacesAddedReceived_strings :
    ¬Terminates fun fuel => interfacesAddedReceived true fuel ⟨OrderedMap.empty, OrderedMap.empty, []⟩
      [.basic (.objectPath "/"), .array [.basic (.string "org.chromium")]] := by
  rw [interfacesAddedReceived_terminates_iff]
  intro fits
  exact fits "/" _ rfl _ [] rfl _ List.mem_cons_self

end ObjectManager

end Libchrome.Dbus
