import Libchrome.Base.IdMap

/-! The finite map that an `IDMap` stands for, and exactly when the map answers as it does. -/

namespace Libchrome.Base.IdMap
open IDMapOwnershipSemantics

/-- The abstract map: the ids that were added and not removed since. -/
abbrev FiniteMap (K T : Type) := Finmap fun _ : K => Pointer T

variable {K T : Type} [DecidableEq K]

namespace FiniteMap

/-- The abstract map after a call that returned `result`. -/
def after (model : FiniteMap K T) : Call K T → Result K T → FiniteMap K T
  | .add data, .id id => model.insert id data
  | .addWithID data id, _ => model.insert id data
  | .remove id, _ => model.erase id
  | .clear, _ => ∅
  | _, _ => model

/-- What the abstract map says of the results that depend on it. -/
def Expects (model : FiniteMap K T) : Call K T → Result K T → Prop
  | .lookup id, result => result = .pointer (model.lookup id).join
  | .size, result => result = .count model.keys.card
  | .isEmpty, result => result = .flag (model.keys.card = 0)
  | _, _ => True

/-- The caller's side: an id given to `AddWithID` is free. -/
def Admits (model : FiniteMap K T) : Call K T → Prop
  | .addWithID _ id => id ∉ model
  | _ => True

end FiniteMap

/-- A session and the abstract map look alike: in number, and in content once no iterator is alive. -/
structure Agrees (session : Session K T) (model : FiniteMap K T) : Prop where
  size : session.map.size = model.keys.card
  isEmpty : session.map.isEmpty = decide (model.keys.card = 0)
  present : session.iterators = [] → ∀ id, id ∈ session.map.data ↔ id ∈ model

/-- The call meets no removal that is still to come, nor does a `Clear` outside an iteration meet a table it keeps. -/
def Settled (ownership : IDMapOwnershipSemantics) (map : IDMap K T) : Call K T → Prop
  | .add _ => map.nextId ∉ map.removedIds
  | .addWithID _ id => id ∉ map.removedIds
  | .lookup id => id ∈ map.removedIds → (map.data.lookup id).join = none
  | .clear => ownership = IDMapExternalPointer → map.iterationDepth = 0 → map.data = ∅
  | _ => True

section
variable [LE K] [DecidableLE K] [Add K] [OfNat K 1]
  (ownership : IDMapOwnershipSemantics) (order : HashOrder K T)

/-- The calls of a run keep to the caller's side. -/
def AdmittedAlong (session : Session K T) (model : FiniteMap K T) : List (Call K T) → Prop
  | [] => True
  | call :: calls => model.Admits call ∧ ∀ next result, session.exec ownership order call = some (next, result) →
      AdmittedAlong next (model.after call result) calls

/-- In every state of the run the two look alike, and every result is the one the abstract map expects. -/
def RefinesAlong (session : Session K T) (model : FiniteMap K T) : List (Call K T) → Prop
  | [] => Agrees session model
  | call :: calls => Agrees session model ∧
      ∀ next result, session.exec ownership order call = some (next, result) →
        model.Expects call result ∧ RefinesAlong next (model.after call result) calls

def SettledAlong (session : Session K T) : List (Call K T) → Prop
  | [] => True
  | call :: calls => Settled ownership session.map call ∧
      ∀ next result, session.exec ownership order call = some (next, result) → SettledAlong next calls

end

/-- The abstraction: the table without the ids whose removal is still to come. -/
def Refines (session : Session K T) (model : FiniteMap K T) : Prop :=
  ∀ id, model.lookup id = if id ∈ session.map.removedIds then none else session.map.data.lookup id

/-! ### Looking up in the table and in the abstract map -/

theorem lookup_assign (order : HashOrder K T) (table : HashTable K T) (id other : K) (data : Pointer T) :
    (order.assign table id data).lookup other = if other = id then some data else table.lookup other := by
  rw [AList.perm_lookup (order.assign_perm table id data)]
  by_cases same : other = id
  · subst same
    simp only [AList.lookup_insert, if_pos]
  · simp only [AList.lookup_insert_ne same, if_neg same]

theorem lookup_insert (model : FiniteMap K T) (id other : K) (data : Pointer T) :
    (model.insert id data).lookup other = if other = id then some data else model.lookup other := by
  by_cases same : other = id
  · subst same
    simp only [Finmap.lookup_insert, if_pos]
  · simp only [Finmap.lookup_insert_of_ne _ same, if_neg same]

theorem lookup_erase (model : FiniteMap K T) (id other : K) :
    (model.erase id).lookup other = if other = id then none else model.lookup other := by
  by_cases same : other = id
  · subst same
    simp only [Finmap.lookup_erase, if_pos]
  · simp only [Finmap.lookup_erase_ne same, if_neg same]

/-! ### What the abstraction says of a state -/

theorem Refines.mem_iff {session : Session K T} {model : FiniteMap K T} (refines : Refines session model) (id : K) :
    id ∈ model ↔ id ∈ session.map.data ∧ id ∉ session.map.removedIds := by
  rw [← Finmap.lookup_isSome, refines, ← AList.lookup_isSome]
  split
  next removed => simp only [removed, Option.isSome_none, Bool.false_eq_true, not_true_eq_false, and_false]
  next kept => simp only [kept, not_false_eq_true, and_true]

theorem Refines.card {ownership : IDMapOwnershipSemantics} {session : Session K T} {model : FiniteMap K T}
    (valid : Valid ownership session) (refines : Refines session model) : session.map.size = model.keys.card := by
  have keys : model.keys = session.map.data.keys.toFinset \ session.map.removedIds.toFinset := by
    apply Finset.ext
    intro id
    rw [Finmap.mem_keys, refines.mem_iff, Finset.mem_sdiff, List.mem_toFinset, List.mem_toFinset, AList.mem_keys]
  have subset : session.map.removedIds.toFinset ⊆ session.map.data.keys.toFinset := by
    intro id member
    rw [List.mem_toFinset] at member ⊢
    exact valid.pending id member
  calc session.map.size = session.map.data.keys.length - session.map.removedIds.length := by
        rw [IDMap.size, AList.keys, List.keys, List.length_map]
    _ = session.map.data.keys.toFinset.card - session.map.removedIds.toFinset.card := by
        rw [List.toFinset_card_of_nodup session.map.data.keys_nodup, List.toFinset_card_of_nodup valid.distinct]
    _ = model.keys.card := by rw [keys, Finset.card_sdiff_of_subset subset]

theorem Refines.agrees {ownership : IDMapOwnershipSemantics} {session : Session K T} {model : FiniteMap K T}
    (valid : Valid ownership session) (refines : Refines session model) : Agrees session model where
  size := refines.card valid
  isEmpty := by rw [IDMap.isEmpty, refines.card valid]
  present := by
    intro noneAlive id
    simp only [refines.mem_iff, valid.settled noneAlive, List.not_mem_nil, not_false_eq_true, and_true]

/-- Away from the removals still to come the map looks ids up as the abstract one does. -/
theorem Refines.lookup {session : Session K T} {model : FiniteMap K T} (refines : Refines session model) (id : K) :
    session.map.lookup id = (model.lookup id).join ↔ id ∈ session.map.removedIds → session.map.lookup id = none := by
  rw [refines, IDMap.lookup]
  split
  next removed => simp only [Option.join_none, removed, true_imp_iff]
  next kept => simp only [kept, false_imp_iff]

theorem Refines.assign {session : Session K T} {model : FiniteMap K T} (refines : Refines session model)
    (order : HashOrder K T) (data : Pointer T) {id : K} (nextId : K) (kept : id ∉ session.map.removedIds) :
    Refines { session with map := { session.map with data := order.assign session.map.data id data, nextId } }
      (model.insert id data) := by
  intro other
  rw [lookup_insert, lookup_assign, refines]
  by_cases same : other = id
  · subst same
    simp only [if_pos, if_neg kept]
  · simp only [if_neg same]

theorem not_agrees_assign {ownership : IDMapOwnershipSemantics} {session : Session K T} {model : FiniteMap K T}
    (valid : Valid ownership session) (refines : Refines session model) (order : HashOrder K T) (data : Pointer T)
    {id : K} (nextId : K) (removed : id ∈ session.map.removedIds) :
    ¬ Agrees { session with map := { session.map with data := order.assign session.map.data id data, nextId } }
      (model.insert id data) := by
  intro agrees
  have sameSize : (order.assign session.map.data id data).entries.length = session.map.data.entries.length :=
    calc (order.assign session.map.data id data).entries.length
      _ = (session.map.data.insert id data).entries.length := (order.assign_perm _ _ _).length_eq
      _ = (id :: session.map.data.keys.erase id).length := by rw [← AList.keys_insert, AList.keys, List.keys, List.length_map]
      _ = session.map.data.keys.length := by
        rw [List.length_cons, List.length_erase_of_mem (valid.pending id removed)]
        exact Nat.succ_pred_eq_of_pos (List.length_pos_of_mem (valid.pending id removed))
      _ = session.map.data.entries.length := by rw [AList.keys, List.keys, List.length_map]
  have absent : id ∉ model.keys := by
    rw [Finmap.mem_keys, refines.mem_iff]
    exact fun present => present.2 removed
  have keys : (model.insert id data).keys = insert id model.keys := by
    apply Finset.ext
    intro other
    rw [Finmap.mem_keys, Finmap.mem_insert, Finset.mem_insert, Finmap.mem_keys]
  have counted := agrees.size
  rw [keys, Finset.card_insert_of_notMem absent, ← refines.card valid] at counted
  change (order.assign session.map.data id data).entries.length - session.map.removedIds.length = _ at counted
  rw [sameSize, IDMap.size] at counted
  omega

section
variable [LE K] [DecidableLE K]

/-! ### One call against the abstract map -/

theorem Refines.remove {ownership : IDMapOwnershipSemantics} {session : Session K T} {model : FiniteMap K T}
    (valid : Valid ownership session) (refines : Refines session model) (id : K) :
    Refines { session with map := session.map.remove ownership id } (model.erase id) := by
  intro other
  rw [lookup_erase, refines]
  by_cases outside : session.map.iterationDepth = 0
  · have forgets := remove_forgets ownership outside id
    have nonePending := valid.settled (valid.outside.mp outside)
    simp only [forgets.removedIds, nonePending, forgets.lookup, List.not_mem_nil, if_false, List.mem_singleton]
  · unfold IDMap.remove
    cases found : session.map.data.lookup id with
    | none =>
      by_cases same : other = id
      · subst same
        simp only [if_pos, found, ite_self]
      · simp only [if_neg same]
    | some pointer =>
      simp only [if_neg outside, mem_markRemoved]
      by_cases same : other = id
      · simp only [same, true_or, if_true]
      · simp only [same, false_or, if_false]

theorem clear_lookup {ownership : IDMapOwnershipSemantics} {session : Session K T} (valid : Valid ownership session)
    (settled : Settled ownership session.map (.clear : Call K T)) (id : K) :
    (if id ∈ (session.map.clear ownership).removedIds then none else (session.map.clear ownership).data.lookup id) = none := by
  unfold IDMap.clear
  by_cases outside : session.map.iterationDepth = 0
  · rw [if_pos outside]
    cases ownership with
    | IDMapExternalPointer =>
      rw [IDMap.releaseAll, settled rfl outside, AList.lookup_empty, ite_self]
    | IDMapOwnPointer => rw [IDMap.releaseAll, AList.lookup_empty, ite_self]
  · rw [if_neg outside]
    by_cases present : id ∈ session.map.data.keys
    · rw [if_pos ((mem_foldl_markRemoved _ _ _).mpr (Or.inl present))]
    · rw [AList.lookup_eq_none.mpr present, ite_self]

theorem Refines.destroyIterator {ownership : IDMapOwnershipSemantics} {session : Session K T} {model : FiniteMap K T}
    (refines : Refines session model) (iterator : Nat) :
    Refines (session.destroyIterator ownership iterator) model := by
  intro id
  rw [refines]
  unfold Session.destroyIterator
  by_cases last : session.map.iterationDepth - 1 = 0
  · have compacted := compact_forgets ownership
      (show ({ session.map with iterationDepth := session.map.iterationDepth - 1 } : IDMap K T).iterationDepth = 0 from last)
    simp only [if_pos last, compacted.2.1, compacted.2.2.1, List.not_mem_nil, if_false]
  · simp only [if_neg last]

variable [Add K] [OfNat K 1] {ownership : IDMapOwnershipSemantics} {order : HashOrder K T}
  {session next : Session K T} {model : FiniteMap K T} {call : Call K T} {result : Result K T}

/-- A settled call returns what the abstract map expects and keeps to the abstraction. -/
theorem Refines.exec (valid : Valid ownership session) (refines : Refines session model)
    (settled : Settled ownership session.map call) (step : session.exec ownership order call = some (next, result)) :
    model.Expects call result ∧ Refines next (model.after call result) := by
  cases call with
  | add data =>
    cases step
    exact ⟨trivial, refines.assign order data (session.map.nextId + 1) settled⟩
  | addWithID data id =>
    cases step
    exact ⟨trivial, refines.assign order data session.map.nextId settled⟩
  | remove id =>
    cases step
    exact ⟨trivial, refines.remove valid id⟩
  | clear =>
    cases step
    refine ⟨trivial, ?_⟩
    intro id
    rw [clear_lookup valid settled]
    exact Finmap.lookup_empty id
  | lookup id =>
    cases step
    exact ⟨congrArg Result.pointer ((refines.lookup id).mpr settled), refines⟩
  | size =>
    cases step
    exact ⟨congrArg Result.count (refines.card valid), refines⟩
  | isEmpty =>
    cases step
    exact ⟨congrArg Result.flag (refines.agrees valid).isEmpty, refines⟩
  | newIterator =>
    cases step
    exact ⟨trivial, refines⟩
  | copyIterator iterator =>
    simp only [Session.exec] at step
    split at step
    next absent => cases step
    next iter found =>
      cases step
      exact ⟨trivial, refines⟩
  | advance iterator =>
    simp only [Session.exec] at step
    split at step
    next absent => cases step
    next atEnd => cases step
    next id found =>
      cases step
      exact ⟨trivial, refines⟩
  | destroyIterator iterator =>
    simp only [Session.exec] at step
    split at step
    next bound =>
      cases step
      exact ⟨trivial, refines.destroyIterator iterator⟩
    next => cases step

/-- A call that is not settled shows: in its result, or in the number of ids the map says it has. -/
theorem settled_of_agrees (valid : Valid ownership session) (refines : Refines session model)
    (step : session.exec ownership order call = some (next, result)) (expected : model.Expects call result)
    (agrees : Agrees next (model.after call result)) : Settled ownership session.map call := by
  cases call with
  | add data =>
    cases step
    intro removed
    exact not_agrees_assign valid refines order data (session.map.nextId + 1) removed agrees
  | addWithID data id =>
    cases step
    intro removed
    exact not_agrees_assign valid refines order data session.map.nextId removed agrees
  | lookup id =>
    cases step
    exact (refines.lookup id).mp (Result.pointer.inj expected)
  | clear =>
    cases step
    rintro rfl outside
    have counted := agrees.size
    simp only [IDMap.clear, if_pos outside, IDMap.releaseAll, IDMap.size, FiniteMap.after, Finmap.keys_empty,
      Finset.card_empty, valid.settled (valid.outside.mp outside), List.length_nil, Nat.sub_zero,
      List.length_eq_zero_iff] at counted
    exact AList.ext counted
  | remove | size | isEmpty | newIterator | copyIterator | advance | destroyIterator => trivial

theorem AdmittedAlong.cons {calls : List (Call K T)} (admitted : model.Admits call)
    (step : session.exec ownership order call = some (next, result))
    (rest : AdmittedAlong ownership order next (model.after call result) calls) :
    AdmittedAlong ownership order session model (call :: calls) := by
  refine ⟨admitted, ?_⟩
  rw [step]
  rintro _ _ ⟨⟩
  exact rest

theorem settled_of_undefined (undefined : session.exec ownership order call = none) :
    Settled ownership session.map call := by
  cases call with
  | add | addWithID | lookup | clear => cases undefined
  | remove | size | isEmpty | newIterator | copyIterator | advance | destroyIterator => trivial

theorem RefinesAlong.agrees {calls : List (Call K T)} (run : RefinesAlong ownership order session model calls) :
    Agrees session model := by
  cases calls with
  | nil => exact run
  | cons call rest => exact run.1

/-- From a state that the invariant describes, the answers of a run are right exactly when its calls are settled. -/
theorem refinesAlong_iff (valid : Valid ownership session) (refines : Refines session model) (calls : List (Call K T)) :
    RefinesAlong ownership order session model calls ↔ SettledAlong ownership order session calls := by
  induction calls generalizing session model with
  | nil => exact iff_of_true (refines.agrees valid) trivial
  | cons call rest inductive_hypothesis =>
    constructor
    · rintro ⟨-, run⟩
      cases step : session.exec ownership order call with
      | none =>
        refine ⟨settled_of_undefined step, ?_⟩
        rw [step]
        exact nofun
      | some stepped =>
        have answered := run stepped.1 stepped.2 step
        have settled := settled_of_agrees valid refines step answered.1 answered.2.agrees
        refine ⟨settled, ?_⟩
        rw [step]
        rintro next result ⟨⟩
        exact (inductive_hypothesis (valid.exec step) (refines.exec valid settled step).2).mp answered.2
    · rintro ⟨settled, run⟩
      refine ⟨refines.agrees valid, ?_⟩
      intro next result step
      have stepped := refines.exec valid settled step
      exact ⟨stepped.1, (inductive_hypothesis (valid.exec step) stepped.2).mpr (run next result step)⟩

omit [DecidableEq K] [LE K] [DecidableLE K] [Add K] in
theorem valid_new : Valid ownership (Session.new : Session K T) where
  depth := rfl
  settled := fun _ => rfl
  distinct := List.nodup_nil
  pending := nofun
  alive := nofun
  owned := fun _ => rfl

omit [LE K] [DecidableLE K] [Add K] in
theorem refines_new : Refines (Session.new : Session K T) (∅ : FiniteMap K T) := fun _ => rfl

/-- A run of a new map agrees with the abstract one from its first call to its last exactly when every call is settled. -/
theorem idMap_refines_iff (ownership : IDMapOwnershipSemantics) (order : HashOrder K T) (calls : List (Call K T)) :
    RefinesAlong ownership order Session.new ∅ calls ↔ SettledAlong ownership order Session.new calls :=
  refinesAlong_iff valid_new refines_new calls

end

/-- A table that iterates over its latest entries first. -/
def latestFirst : HashOrder Int32 Nat := ⟨fun table id data => table.insert id data, fun _ _ _ => List.Perm.refl _⟩

/-- `Clear` of a map that owns nothing, a look-up of an id that waits for its removal, and such an id added again. -/
theorem not_refines_clear_lookup_add :
    (AdmittedAlong IDMapExternalPointer latestFirst Session.new ∅ [.add (some 7), .clear, .size] ∧
      ¬ RefinesAlong IDMapExternalPointer latestFirst Session.new ∅ [.add (some 7), .clear, .size]) ∧
    (AdmittedAlong IDMapOwnPointer latestFirst Session.new ∅ [.add (some 7), .newIterator, .remove 1, .lookup 1] ∧
      ¬ RefinesAlong IDMapOwnPointer latestFirst Session.new ∅ [.add (some 7), .newIterator, .remove 1, .lookup 1]) ∧
    (AdmittedAlong IDMapExternalPointer latestFirst Session.new ∅
        [.add (some 7), .newIterator, .remove 1, .addWithID (some 8) 1, .destroyIterator 0, .lookup 1] ∧
      ¬ RefinesAlong IDMapExternalPointer latestFirst Session.new ∅
        [.add (some 7), .newIterator, .remove 1, .addWithID (some 8) 1, .destroyIterator 0, .lookup 1]) := by
  refine ⟨⟨?_, ?_⟩, ⟨?_, ?_⟩, ⟨?_, ?_⟩⟩
  · exact .cons trivial rfl (.cons trivial rfl (.cons trivial rfl trivial))
  · intro run
    have cleared := ((run.2 _ _ rfl).2.2 _ _ rfl).2
    exact absurd cleared.1.size (by decide)
  · exact .cons trivial rfl (.cons trivial rfl (.cons trivial rfl (.cons trivial rfl trivial)))
  · intro run
    have removed := (((run.2 _ _ rfl).2.2 _ _ rfl).2.2 _ _ rfl).2
    have answer := Result.pointer.inj (removed.2 _ _ rfl).1
    exact absurd answer (by decide)
  · refine .cons trivial rfl (.cons trivial rfl (.cons trivial rfl ?_))
    exact .cons Finmap.notMem_erase_self rfl (.cons trivial rfl (.cons trivial rfl trivial))
  · intro run
    have added := ((((run.2 _ _ rfl).2.2 _ _ rfl).2.2 _ _ rfl).2.2 _ _ rfl).2
    have gone := (added.2 _ _ rfl).2
    have answer := Result.pointer.inj (gone.2 _ _ rfl).1
    exact absurd answer (by decide)

end Libchrome.Base.IdMap
