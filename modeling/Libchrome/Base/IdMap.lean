import Mathlib.Data.List.Sort
import Mathlib.Data.Finmap

/-! `IDMap` with its iterators, as a release build runs it: a DCHECK is no step of the model. -/

namespace Libchrome.Base.IdMap

inductive IDMapOwnershipSemantics where
  | IDMapExternalPointer
  | IDMapOwnPointer
  deriving DecidableEq, Repr
open IDMapOwnershipSemantics

/-- A `T*`, with `none` for the null pointer. -/
abbrev Pointer (T : Type) := Option T

/-- `base::hash_map<K, T*>`, its entries in the order of iteration. -/
abbrev HashTable (K T : Type) := AList fun _ : K => Pointer T

/-- How a hash table carries out `data_[id] = data`: it may order its entries anew. -/
structure HashOrder (K T : Type) [DecidableEq K] where
  assign : HashTable K T → K → Pointer T → HashTable K T
  assign_perm : ∀ table id data, (assign table id data).entries.Perm (table.insert id data).entries

structure IDMap (K T : Type) where
  iterationDepth : Int
  /-- A `std::set`, in increasing order. -/
  removedIds : List K
  nextId : K
  data : HashTable K T
  /-- What the map has deleted so far, the latest first. -/
  deleted : List T

/-- A map and the iterators alive on it; an iterator is the id of its node, or `none` at the end. -/
structure Session (K T : Type) where
  map : IDMap K T
  iterators : List (Option K)

variable {K T : Type} [DecidableEq K]

/-- `Releaser::release` on each of the pointers. -/
def release (ownership : IDMapOwnershipSemantics) (deleted : List T) (pointers : List (Pointer T)) : List T :=
  match ownership with
  | IDMapExternalPointer => deleted
  | IDMapOwnPointer => (pointers.reduceOption).reverse ++ deleted

namespace IDMap

def new [OfNat K 1] : IDMap K T := ⟨0, [], 1, ∅, []⟩

def add [Add K] [OfNat K 1] (order : HashOrder K T) (map : IDMap K T) (data : Pointer T) : IDMap K T × K :=
  ({ map with data := order.assign map.data map.nextId data, nextId := map.nextId + 1 }, map.nextId)

def addWithID (order : HashOrder K T) (map : IDMap K T) (data : Pointer T) (id : K) : IDMap K T :=
  { map with data := order.assign map.data id data }

/-- `removed_ids_.insert(id)`. -/
def markRemoved [LE K] [DecidableLE K] (removedIds : List K) (id : K) : List K :=
  if id ∈ removedIds then removedIds else removedIds.orderedInsert (· ≤ ·) id

def remove [LE K] [DecidableLE K] (ownership : IDMapOwnershipSemantics) (map : IDMap K T) (id : K) : IDMap K T :=
  match map.data.lookup id with
  | none => map
  | some pointer =>
    if map.iterationDepth = 0 then
      { map with data := map.data.erase id, deleted := release ownership map.deleted [pointer] }
    else { map with removedIds := markRemoved map.removedIds id }

/-- `Releaser::release_all`, which does nothing to the table of a map that does not own its pointers. -/
def releaseAll (ownership : IDMapOwnershipSemantics) (map : IDMap K T) : IDMap K T :=
  match ownership with
  | IDMapExternalPointer => map
  | IDMapOwnPointer =>
    { map with data := ∅, deleted := release ownership map.deleted (map.data.entries.map (·.2)) }

def clear [LE K] [DecidableLE K] (ownership : IDMapOwnershipSemantics) (map : IDMap K T) : IDMap K T :=
  if map.iterationDepth = 0 then map.releaseAll ownership
  else { map with removedIds := map.data.keys.foldl markRemoved map.removedIds }

def size (map : IDMap K T) : Nat := map.data.entries.length - map.removedIds.length

def isEmpty (map : IDMap K T) : Bool := map.size = 0

def lookup (map : IDMap K T) (id : K) : Pointer T := (map.data.lookup id).join

def compact [LE K] [DecidableLE K] (ownership : IDMapOwnershipSemantics) (map : IDMap K T) : IDMap K T :=
  { map.removedIds.foldl (remove ownership) map with removedIds := [] }

/-- The ids from an iterator's node to the end. -/
def idsFrom (map : IDMap K T) : Option K → List K
  | none => []
  | some id => map.data.keys.dropWhile (· ≠ id)

/-- `SkipRemovedEntries` of an iterator that has `ids` before it. -/
def skipRemovedEntries (map : IDMap K T) (ids : List K) : Option K := ids.find? (· ∉ map.removedIds)

end IDMap

/-- What a client may do with a map and its iterators; an iterator is named by its position. -/
inductive Call (K T : Type) where
  | add (data : Pointer T)
  | addWithID (data : Pointer T) (id : K)
  | remove (id : K)
  | clear
  | lookup (id : K)
  | size
  | isEmpty
  | newIterator
  | copyIterator (iterator : Nat)
  | advance (iterator : Nat)
  | destroyIterator (iterator : Nat)

inductive Result (K T : Type) where
  | done
  | id (id : K)
  | pointer (pointer : Pointer T)
  | count (count : Nat)
  | flag (flag : Bool)
  deriving DecidableEq

namespace Session
variable [LE K] [DecidableLE K]

/-- `Iterator::Init` of an iterator that has `ids` before it. -/
def init (session : Session K T) (ids : List K) : Session K T where
  map := { session.map with iterationDepth := session.map.iterationDepth + 1 }
  iterators := session.iterators ++ [session.map.skipRemovedEntries ids]

/-- The destructor of an iterator. -/
def destroyIterator (ownership : IDMapOwnershipSemantics) (session : Session K T) (iterator : Nat) : Session K T :=
  let map := { session.map with iterationDepth := session.map.iterationDepth - 1 }
  ⟨if map.iterationDepth = 0 then map.compact ownership else map, session.iterators.eraseIdx iterator⟩

variable [Add K] [OfNat K 1]

def new : Session K T := ⟨IDMap.new, []⟩

/-- One call; `none` where C++ leaves it undefined: an iterator that is not alive, or advanced past the end. -/
def exec (ownership : IDMapOwnershipSemantics) (order : HashOrder K T) (session : Session K T) :
    Call K T → Option (Session K T × Result K T)
  | .add data =>
    let (map, id) := session.map.add order data
    some ({ session with map }, .id id)
  | .addWithID data id => some ({ session with map := session.map.addWithID order data id }, .done)
  | .remove id => some ({ session with map := session.map.remove ownership id }, .done)
  | .clear => some ({ session with map := session.map.clear ownership }, .done)
  | .lookup id => some (session, .pointer (session.map.lookup id))
  | .size => some (session, .count session.map.size)
  | .isEmpty => some (session, .flag session.map.isEmpty)
  | .newIterator => some (session.init session.map.data.keys, .done)
  | .copyIterator iterator =>
    match session.iterators[iterator]? with
    | none => none
    | some iter => some (session.init (session.map.idsFrom iter), .done)
  | .advance iterator =>
    match session.iterators[iterator]? with
    | none | some none => none
    | some (some id) =>
      let iter := session.map.skipRemovedEntries (session.map.idsFrom (some id)).tail
      some ({ session with iterators := session.iterators.set iterator iter }, .done)
  | .destroyIterator iterator =>
    if iterator < session.iterators.length then some (session.destroyIterator ownership iterator, .done) else none

end Session

/-! What holds of an `IDMap` and its iterators after every call, in whatever order they come. -/

/-- What every call keeps, whatever the client does. -/
structure Valid (ownership : IDMapOwnershipSemantics) (session : Session K T) : Prop where
  depth : session.map.iterationDepth = session.iterators.length
  settled : session.iterators = [] → session.map.removedIds = []
  distinct : session.map.removedIds.Nodup
  pending : ∀ id ∈ session.map.removedIds, id ∈ session.map.data
  alive : ∀ id, some id ∈ session.iterators → id ∈ session.map.data
  owned : ownership = IDMapExternalPointer → session.map.deleted = []

theorem mem_assign (order : HashOrder K T) (table : HashTable K T) (id other : K) (data : Pointer T) :
    other ∈ order.assign table id data ↔ other = id ∨ other ∈ table := by
  rw [AList.mem_of_perm (order.assign_perm table id data), AList.mem_insert]

/-! ### Iterators -/

theorem mem_of_skipRemovedEntries {map : IDMap K T} {ids : List K} {id : K}
    (found : map.skipRemovedEntries ids = some id) : id ∈ ids := List.mem_of_find?_eq_some found

theorem mem_of_mem_idsFrom {map : IDMap K T} {iter : Option K} {id : K} (member : id ∈ map.idsFrom iter) :
    id ∈ map.data := by
  cases iter with
  | none => cases member
  | some start => exact (List.dropWhile_suffix _).mem member

theorem Valid.init {ownership : IDMapOwnershipSemantics} {session : Session K T} (valid : Valid ownership session)
    {ids : List K} (known : ∀ id ∈ ids, id ∈ session.map.data) : Valid ownership (session.init ids) where
  depth := by
    simp only [Session.init, valid.depth, List.length_append, List.length_singleton]
    rfl
  settled := by
    intro noneAlive
    simp only [Session.init, List.append_eq_nil_iff, List.cons_ne_nil, and_false] at noneAlive
  distinct := valid.distinct
  pending := valid.pending
  alive := by
    intro id member
    rcases List.mem_append.mp member with old | new
    · exact valid.alive id old
    · exact known id (mem_of_skipRemovedEntries (List.mem_singleton.mp new).symm)
  owned := valid.owned

omit [DecidableEq K] in
theorem Valid.outside {ownership : IDMapOwnershipSemantics} {session : Session K T} (valid : Valid ownership session) :
    session.map.iterationDepth = 0 ↔ session.iterators = [] := by
  rw [valid.depth, ← List.length_eq_zero_iff]
  exact Int.ofNat_eq_zero

theorem Valid.assign {ownership : IDMapOwnershipSemantics} {session : Session K T} (valid : Valid ownership session)
    (order : HashOrder K T) (data : Pointer T) (id nextId : K) :
    Valid ownership { session with map := { session.map with data := order.assign session.map.data id data, nextId } } where
  depth := valid.depth
  settled := valid.settled
  distinct := valid.distinct
  pending := fun other member => (mem_assign order _ _ _ _).mpr (Or.inr (valid.pending other member))
  alive := fun other member => (mem_assign order _ _ _ _).mpr (Or.inr (valid.alive other member))
  owned := valid.owned

section
variable [LE K] [DecidableLE K]

/-! ### The set of removed ids -/

@[simp] theorem mem_markRemoved (removedIds : List K) (id other : K) :
    other ∈ IDMap.markRemoved removedIds id ↔ other = id ∨ other ∈ removedIds := by
  unfold IDMap.markRemoved
  split
  next member =>
    constructor
    · exact Or.inr
    · rintro (rfl | present)
      · exact member
      · exact present
  next absent => exact List.mem_orderedInsert _

theorem nodup_markRemoved {removedIds : List K} (distinct : removedIds.Nodup) (id : K) :
    (IDMap.markRemoved removedIds id).Nodup := by
  unfold IDMap.markRemoved
  split
  next member => exact distinct
  next absent => exact (List.perm_orderedInsert _ id removedIds).nodup_iff.mpr (List.nodup_cons.mpr ⟨absent, distinct⟩)

@[simp] theorem mem_foldl_markRemoved (ids removedIds : List K) (other : K) :
    other ∈ ids.foldl IDMap.markRemoved removedIds ↔ other ∈ ids ∨ other ∈ removedIds := by
  induction ids generalizing removedIds with
  | nil => simp only [List.foldl_nil, List.not_mem_nil, false_or]
  | cons id rest inductive_hypothesis =>
    rw [List.foldl_cons, inductive_hypothesis, mem_markRemoved, List.mem_cons]
    tauto

theorem nodup_foldl_markRemoved (ids : List K) {removedIds : List K} (distinct : removedIds.Nodup) :
    (ids.foldl IDMap.markRemoved removedIds).Nodup := by
  induction ids generalizing removedIds with
  | nil => exact distinct
  | cons id rest inductive_hypothesis => exact inductive_hypothesis (nodup_markRemoved distinct id)

/-! ### Removal outside an iteration, and what the last iterator leaves to be done -/

/-- A map that only forgot some ids, deleting nothing it does not own. -/
structure Forgets (ownership : IDMapOwnershipSemantics) (ids : List K) (map next : IDMap K T) : Prop where
  iterationDepth : next.iterationDepth = map.iterationDepth
  removedIds : next.removedIds = map.removedIds
  lookup : ∀ id, next.data.lookup id = if id ∈ ids then none else map.data.lookup id
  owned : ownership = IDMapExternalPointer → next.deleted = map.deleted

theorem remove_forgets (ownership : IDMapOwnershipSemantics) {map : IDMap K T} (outside : map.iterationDepth = 0) (id : K) :
    Forgets ownership [id] map (map.remove ownership id) := by
  unfold IDMap.remove
  cases found : map.data.lookup id with
  | none =>
    refine ⟨rfl, rfl, ?_, fun _ => rfl⟩
    intro other
    by_cases same : other = id
    · subst same
      simp only [List.mem_singleton, if_pos, found]
    · simp only [List.mem_singleton, if_neg same]
  | some pointer =>
    simp only [if_pos outside]
    refine ⟨rfl, rfl, ?_, ?_⟩
    · intro other
      by_cases same : other = id
      · subst same
        simp only [List.mem_singleton, if_pos, AList.lookup_erase]
      · simp only [List.mem_singleton, if_neg same, AList.lookup_erase_ne same]
    · rintro rfl
      rfl

theorem foldl_remove_forgets (ownership : IDMapOwnershipSemantics) (ids : List K) {map : IDMap K T}
    (outside : map.iterationDepth = 0) : Forgets ownership ids map (ids.foldl (IDMap.remove ownership) map) := by
  induction ids generalizing map with
  | nil =>
    refine ⟨rfl, rfl, ?_, fun _ => rfl⟩
    intro other
    simp only [List.foldl_nil, List.not_mem_nil, if_false]
  | cons id rest inductive_hypothesis =>
    have first := remove_forgets ownership outside id
    have others := inductive_hypothesis (first.iterationDepth.trans outside)
    refine ⟨others.iterationDepth.trans first.iterationDepth, others.removedIds.trans first.removedIds, ?_, ?_⟩
    · intro other
      rw [List.foldl_cons, others.lookup, first.lookup]
      by_cases same : other = id
      · simp only [same, List.mem_cons, true_or, if_true, ite_self]
      · simp only [List.mem_cons, same, false_or]
        rfl
    · intro external
      exact (others.owned external).trans (first.owned external)

theorem compact_forgets (ownership : IDMapOwnershipSemantics) {map : IDMap K T} (outside : map.iterationDepth = 0) :
    (map.compact ownership).iterationDepth = 0 ∧ (map.compact ownership).removedIds = [] ∧
    (∀ id, (map.compact ownership).data.lookup id = if id ∈ map.removedIds then none else map.data.lookup id) ∧
    (ownership = IDMapExternalPointer → (map.compact ownership).deleted = map.deleted) := by
  have forgets := foldl_remove_forgets ownership map.removedIds outside
  exact ⟨forgets.iterationDepth.trans outside, rfl, forgets.lookup, forgets.owned⟩

variable {ownership : IDMapOwnershipSemantics} {session : Session K T}

theorem Valid.remove (valid : Valid ownership session) (id : K) :
    Valid ownership { session with map := session.map.remove ownership id } := by
  by_cases outside : session.map.iterationDepth = 0
  · have noneAlive : session.iterators = [] := by
      have depth := valid.depth
      rw [outside] at depth
      exact List.length_eq_zero_iff.mp (by omega)
    have forgets := remove_forgets ownership outside id
    have nonePending := forgets.removedIds.trans (valid.settled noneAlive)
    exact {
      depth := forgets.iterationDepth.trans valid.depth
      settled := fun _ => nonePending
      distinct := by simp only [nonePending, List.nodup_nil]
      pending := by simp only [nonePending, List.not_mem_nil, false_imp_iff, implies_true]
      alive := by simp only [noneAlive, List.not_mem_nil, false_imp_iff, implies_true]
      owned := fun external => (forgets.owned external).trans (valid.owned external) }
  · unfold IDMap.remove
    cases found : session.map.data.lookup id with
    | none => exact valid
    | some pointer =>
      simp only [if_neg outside]
      have present : id ∈ session.map.data := by
        rw [← AList.lookup_isSome, found]
        rfl
      exact {
        depth := valid.depth
        settled := by
          intro noneAlive
          have depth := valid.depth
          rw [show session.iterators = [] from noneAlive] at depth
          exact (outside depth).elim
        distinct := nodup_markRemoved valid.distinct id
        pending := by
          intro other member
          rcases (mem_markRemoved _ _ _).mp member with rfl | old
          · exact present
          · exact valid.pending other old
        alive := valid.alive
        owned := valid.owned }

theorem Valid.clear (valid : Valid ownership session) :
    Valid ownership { session with map := session.map.clear ownership } := by
  unfold IDMap.clear
  split
  next outside =>
    have noneAlive := valid.outside.mp outside
    cases ownership with
    | IDMapExternalPointer => exact valid
    | IDMapOwnPointer =>
      exact {
        depth := valid.depth
        settled := valid.settled
        distinct := valid.distinct
        pending := by
          intro id member
          rw [show (session.map.releaseAll IDMapOwnPointer).removedIds = [] from valid.settled noneAlive] at member
          cases member
        alive := by simp only [noneAlive, List.not_mem_nil, false_imp_iff, implies_true]
        owned := nofun }
  next inside =>
    exact {
      depth := valid.depth
      settled := fun noneAlive => (inside (valid.outside.mpr noneAlive)).elim
      distinct := nodup_foldl_markRemoved _ valid.distinct
      pending := by
        intro id member
        rcases (mem_foldl_markRemoved _ _ _).mp member with present | old
        · exact present
        · exact valid.pending id old
      alive := valid.alive
      owned := valid.owned }

theorem Valid.destroyIterator (valid : Valid ownership session) {iterator : Nat}
    (bound : iterator < session.iterators.length) : Valid ownership (session.destroyIterator ownership iterator) := by
  have remaining : session.map.iterationDepth - 1 = (session.iterators.eraseIdx iterator).length := by
    rw [valid.depth, List.length_eraseIdx_of_lt bound]
    omega
  unfold Session.destroyIterator
  by_cases last : session.map.iterationDepth - 1 = 0
  · have compacted := compact_forgets ownership
      (show ({ session.map with iterationDepth := session.map.iterationDepth - 1 } : IDMap K T).iterationDepth = 0 from last)
    have noneAlive : session.iterators.eraseIdx iterator = [] := List.length_eq_zero_iff.mp (by omega)
    simp only [if_pos last, noneAlive]
    exact {
      depth := compacted.1
      settled := fun _ => compacted.2.1
      distinct := by simp only [compacted.2.1, List.nodup_nil]
      pending := by simp only [compacted.2.1, List.not_mem_nil, false_imp_iff, implies_true]
      alive := by simp only [List.not_mem_nil, false_imp_iff, implies_true]
      owned := fun external => (compacted.2.2.2 external).trans (valid.owned external) }
  · simp only [if_neg last]
    exact {
      depth := remaining
      settled := by
        intro noneAlive
        rw [show session.iterators.eraseIdx iterator = [] from noneAlive] at remaining
        exact (last remaining).elim
      distinct := valid.distinct
      pending := valid.pending
      alive := fun id member => valid.alive id (List.mem_of_mem_eraseIdx member)
      owned := valid.owned }

variable [Add K] [OfNat K 1]

/-- Whatever a client calls, in whatever order, the bookkeeping of the iteration stays right. -/
theorem Valid.exec {order : HashOrder K T} {next : Session K T} {call : Call K T} {result : Result K T}
    (valid : Valid ownership session) (step : session.exec ownership order call = some (next, result)) :
    Valid ownership next := by
  cases call with
  | add data =>
    cases step
    exact valid.assign order data session.map.nextId (session.map.nextId + 1)
  | addWithID data id =>
    cases step
    exact valid.assign order data id session.map.nextId
  | remove id =>
    cases step
    exact valid.remove id
  | clear =>
    cases step
    exact valid.clear
  | lookup id =>
    cases step
    exact valid
  | size =>
    cases step
    exact valid
  | isEmpty =>
    cases step
    exact valid
  | newIterator =>
    cases step
    exact valid.init (fun _ member => member)
  | copyIterator iterator =>
    simp only [Session.exec] at step
    split at step
    next absent => cases step
    next iter found =>
      cases step
      exact valid.init (fun _ member => mem_of_mem_idsFrom member)
  | advance iterator =>
    simp only [Session.exec] at step
    split at step
    next absent => cases step
    next atEnd => cases step
    next id found =>
      cases step
      refine { valid with settled := ?_, depth := ?_, alive := ?_ }
      · rw [List.length_set]
        exact valid.depth
      · intro noneAlive
        exact valid.settled ((List.set_eq_nil_iff _ _).mp noneAlive)
      · intro other member
        rcases List.mem_or_eq_of_mem_set member with old | moved
        · exact valid.alive other old
        · exact mem_of_mem_idsFrom (List.mem_of_mem_tail (mem_of_skipRemovedEntries moved.symm))
  | destroyIterator iterator =>
    simp only [Session.exec] at step
    split at step
    next bound =>
      cases step
      exact valid.destroyIterator bound
    next => cases step

end

end Libchrome.Base.IdMap
