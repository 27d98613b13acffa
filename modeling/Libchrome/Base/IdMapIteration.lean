import Libchrome.Base.IdMap
import Libchrome.Library.Machine

/-!
# What the iterators of an `IDMap` visit

While there are iterators a removal only marks the id, so that the nodes stay where they are. Each iterator comes past
them in their order and visits those that are not marked; the last one to go takes the marked ones with it.
-/

namespace Libchrome.Base.IdMap
variable {K T : Type} [DecidableEq K]

/-- What an iterator has done: the ids there were when it was made, and those it has been at, in this order. A copy
goes on with the visit of its original. -/
structure Tour (K : Type) where
  present : List K
  visited : List K

/-- A session with the tours of its iterators and the ids removed since the first of them was made. -/
structure Watched (K T : Type) where
  session : Session K T
  tours : List (Tour K)
  removed : List K

namespace Watched

/-- The ids of a map that have not been removed. -/
def present (watched : Watched K T) : List K := watched.session.map.data.keys.filter (· ∉ watched.removed)

/-- The id that a call brings its iterator to. -/
def arrival (after : Session K T) : Call K T → Option K
  | .newIterator | .copyIterator _ => after.iterators.getLast?.join
  | .advance iterator => after.iterators[iterator]?.join
  | _ => none

/-- The tours after a call. -/
def toursAfter (watched : Watched K T) (after : Session K T) (call : Call K T) : List (Tour K) :=
  match call with
  | .newIterator => watched.tours ++ [⟨watched.present, (arrival after call).toList⟩]
  | .copyIterator iterator =>
    let before := (watched.tours[iterator]?.map (·.visited)).getD []
    let stays := watched.session.iterators[iterator]? = after.iterators.getLast?
    watched.tours ++ [⟨watched.present, if stays then before else before ++ (arrival after call).toList⟩]
  | .advance iterator =>
    watched.tours.modify iterator fun tour => { tour with visited := tour.visited ++ (arrival after call).toList }
  | .destroyIterator iterator => watched.tours.eraseIdx iterator
  | _ => watched.tours

/-- The removed ids after a call. -/
def removedAfter (watched : Watched K T) (after : Session K T) (call : Call K T) : List K :=
  if after.iterators = [] then []
  else match call with
    | .remove id => if id ∈ watched.session.map.data then id :: watched.removed else watched.removed
    | .clear => watched.session.map.data.keys ++ watched.removed
    | _ => watched.removed

variable [LE K] [DecidableLE K] [Add K] [OfNat K 1]

def start : Watched K T := ⟨Session.new, [], []⟩

def step (ownership : IDMapOwnershipSemantics) (order : HashOrder K T) (watched : Watched K T) (call : Call K T) :
    Option (Watched K T) :=
  (watched.session.exec ownership order call).map fun done =>
    ⟨done.1, watched.toursAfter done.1 call, watched.removedAfter done.1 call⟩

/-- Nothing is added while there are iterators. -/
def Quiet (watched : Watched K T) : Call K T → Prop
  | .add _ | .addWithID _ _ => watched.session.iterators = []
  | _ => True

end Watched

/-- The ids before an iterator, those it is past, and its tour. -/
structure Along (map : IDMap K T) (position : Option K) (tour : Tour K) (front rest : List K) : Prop where
  keys : map.data.keys = front ++ (position.toList ++ rest)
  ahead : map.idsFrom position = position.toList ++ rest
  visited : tour.visited.Sublist (front ++ position.toList)
  here : ∀ id, position = some id → id ∈ tour.visited
  passed : ∀ id ∈ map.data.keys, id ∉ map.removedIds → id ∈ tour.visited ∨ id ∈ rest
  present : ∀ id ∈ tour.present, id ∈ map.data.keys

theorem dropWhile_ne {front rest : List K} {id : K} (absent : id ∉ front) :
    (front ++ id :: rest).dropWhile (fun other => decide (other ≠ id)) = id :: rest := by
  induction front with
  | nil => simp
  | cons first front ih =>
    have other : first ≠ id := fun same => absent (same ▸ List.mem_cons_self)
    have later := ih fun member => absent (List.mem_cons_of_mem _ member)
    simpa [List.dropWhile_cons, other] using later

/-- Where `SkipRemovedEntries` leaves an iterator. -/
theorem skipRemovedEntries_eq {map : IDMap K T} {front ids : List K} (keys : map.data.keys = front ++ ids) :
    ∃ skipped rest, ids = skipped ++ ((map.skipRemovedEntries ids).toList ++ rest) ∧
      (∀ id ∈ skipped, id ∈ map.removedIds) ∧
      map.idsFrom (map.skipRemovedEntries ids) = (map.skipRemovedEntries ids).toList ++ rest ∧
      ∀ id, map.skipRemovedEntries ids = some id → id ∉ map.removedIds := by
  cases found : map.skipRemovedEntries ids with
  | none =>
    refine ⟨ids, [], (List.append_nil ids).symm, ?_, rfl, nofun⟩
    simpa [IDMap.skipRemovedEntries] using found
  | some id =>
    obtain ⟨kept, skipped, rest, same, passed⟩ := List.find?_eq_some_iff_append.mp found
    refine ⟨skipped, rest, same, by simpa using passed, ?_, fun other at_other => ?_⟩
    · have distinct := map.data.keys_nodup
      rw [keys, same, ← List.append_assoc] at distinct
      have absent : id ∉ front ++ skipped := fun member =>
        (List.nodup_append.mp distinct).2.2 id member id List.mem_cons_self rfl
      rw [IDMap.idsFrom, keys, same, ← List.append_assoc]
      exact dropWhile_ne absent
    · cases at_other
      simpa using kept

section Moving
variable {map : IDMap K T} {position : Option K} {tour : Tour K} {front rest ids : List K}

theorem along_new {present : List K} (known : ∀ id ∈ present, id ∈ map.data.keys) :
    ∃ front rest, Along map (map.skipRemovedEntries map.data.keys)
      ⟨present, (map.skipRemovedEntries map.data.keys).toList⟩ front rest := by
  obtain ⟨skipped, rest, same, removed, ahead, -⟩ := skipRemovedEntries_eq (List.nil_append map.data.keys).symm
  refine ⟨skipped, rest, same, ahead, List.sublist_append_right _ _, ?_, ?_, known⟩
  · intro id at_id
    exact Option.mem_toList.mpr at_id
  · intro id member kept
    rw [same] at member
    rcases List.mem_append.mp member with skip | member
    · exact absurd (removed id skip) kept
    · exact List.mem_append.mp member

theorem Along.advance {id : K} (along : Along map (some id) tour front rest) :
    ∃ front rest', Along map (map.skipRemovedEntries (map.idsFrom (some id)).tail)
      { tour with visited := tour.visited ++ (map.skipRemovedEntries (map.idsFrom (some id)).tail).toList }
      front rest' := by
  have tail : (map.idsFrom (some id)).tail = rest := by rw [along.ahead]; rfl
  rw [tail]
  have keys : map.data.keys = (front ++ [id]) ++ rest := by
    rw [along.keys, List.append_assoc]
    rfl
  obtain ⟨skipped, rest', same, removed, ahead, -⟩ := skipRemovedEntries_eq keys
  refine ⟨front ++ [id] ++ skipped, rest', ?_, ahead, ?_, ?_, ?_, along.present⟩
  · rw [List.append_assoc (front ++ [id]), ← same]
    exact keys
  · exact (along.visited.trans (List.sublist_append_left _ _)).append (List.Sublist.refl _)
  · intro other at_other
    exact List.mem_append_right _ (Option.mem_toList.mpr at_other)
  · intro other member kept
    rcases along.passed other member kept with visited | later
    · exact .inl (List.mem_append_left _ visited)
    · rw [same] at later
      rcases List.mem_append.mp later with skip | later
      · exact absurd (removed other skip) kept
      · exact (List.mem_append.mp later).imp_left (List.mem_append_right _)

/-- A copy, which starts where its original is and passes it if it has been removed. -/
theorem Along.copy {present : List K} (along : Along map position tour front rest)
    (known : ∀ id ∈ present, id ∈ map.data.keys) :
    ∃ front rest', Along map (map.skipRemovedEntries (map.idsFrom position))
      ⟨present, if position = map.skipRemovedEntries (map.idsFrom position) then tour.visited
        else tour.visited ++ (map.skipRemovedEntries (map.idsFrom position)).toList⟩ front rest' := by
  rw [along.ahead]
  obtain ⟨skipped, rest', same, removed, ahead, -⟩ := skipRemovedEntries_eq along.keys
  have known_node : position ≠ map.skipRemovedEntries (position.toList ++ rest) → position.toList.Sublist skipped := by
    intro moves
    cases position with
    | none => exact List.nil_sublist _
    | some id =>
      cases skipped with
      | cons first skipped =>
        obtain ⟨rfl, -⟩ := List.cons.inj same
        exact List.singleton_sublist.mpr List.mem_cons_self
      | nil =>
        generalize map.skipRemovedEntries ((some id).toList ++ rest) = later at same ahead moves
        cases later with
        | none =>
          rw [show rest' = [] from ahead.symm] at same
          cases same
        | some other => exact absurd (congrArg some (List.cons.inj same).1) moves
  generalize map.skipRemovedEntries (position.toList ++ rest) = later at same ahead known_node
  refine ⟨front ++ skipped, rest', ?_, ahead, ?_, ?_, ?_, known⟩
  · rw [along.keys, List.append_assoc, ← same]
  · by_cases stays : position = later
    · rw [if_pos stays, ← stays]
      exact along.visited.trans ((List.sublist_append_left _ _).append (List.Sublist.refl _))
    · rw [if_neg stays]
      exact (along.visited.trans ((List.Sublist.refl front).append (known_node stays))).append (List.Sublist.refl _)
  · intro id at_id
    by_cases stays : position = later
    · rw [if_pos stays]
      exact along.here id (stays.trans at_id)
    · rw [if_neg stays]
      exact List.mem_append_right _ (Option.mem_toList.mpr at_id)
  · intro id member kept
    rcases along.passed id member kept with visited | ahead_of
    · by_cases stays : position = later
      · rw [if_pos stays]
        exact .inl visited
      · rw [if_neg stays]
        exact .inl (List.mem_append_left _ visited)
    · have inside : id ∈ skipped ++ (later.toList ++ rest') := same ▸ List.mem_append_right _ ahead_of
      rcases List.mem_append.mp inside with skip | inside
      · exact absurd (removed id skip) kept
      · rcases List.mem_append.mp inside with here | later_
        · by_cases stays : position = later
          · rw [if_pos stays]
            exact .inl (along.here id (stays.trans (Option.mem_toList.mp here)))
          · rw [if_neg stays]
            exact .inl (List.mem_append_right _ here)
        · exact .inr later_

/-- More removals, with the nodes where they were. -/
theorem Along.mark {next : IDMap K T} (along : Along map position tour front rest) (data : next.data = map.data)
    (more : ∀ id ∈ map.removedIds, id ∈ next.removedIds) : Along next position tour front rest where
  keys := data ▸ along.keys
  ahead := by
    have same : next.idsFrom position = map.idsFrom position := by
      cases position <;> simp only [IDMap.idsFrom, data]
    rw [same, along.ahead]
  visited := along.visited
  here := along.here
  passed := fun id member kept => along.passed id (data ▸ member) fun removed => kept (more id removed)
  present := data ▸ along.present

end Moving

/-- Two lists of one length, with a property of the entries at each place. -/
structure Paired {α β : Type} (Property : α → β → Prop) (front : List α) (others : List β) : Prop where
  count : others.length = front.length
  each : ∀ (i : Nat) a b, front[i]? = some a → others[i]? = some b → Property a b

section Pairing
variable {α β : Type} {Property Weaker : α → β → Prop} {front : List α} {others : List β}

section
variable (paired : Paired Property front others)
include paired

theorem Paired.imp (weaker : ∀ a b, Property a b → Weaker a b) :
    Paired Weaker front others :=
  ⟨paired.count, fun i a b at_a at_b => weaker a b (paired.each i a b at_a at_b)⟩

theorem Paired.concat {last : α} {also : β} (new : Property last also) :
    Paired Property (front ++ [last]) (others ++ [also]) where
  count := by simp [paired.count]
  each := by
    intro i a b at_a at_b
    have count := paired.count
    by_cases inside : i < front.length
    · rw [List.getElem?_append_left inside] at at_a
      rw [List.getElem?_append_left (by omega)] at at_b
      exact paired.each i a b at_a at_b
    · rw [List.getElem?_append_right (by omega)] at at_a
      rw [List.getElem?_append_right (by omega), count] at at_b
      cases place : i - front.length with
      | zero =>
        rw [place] at at_a at_b
        cases at_a
        cases at_b
        exact new
      | succ n =>
        rw [place] at at_a
        cases at_a

theorem Paired.eraseIdx (place : Nat) :
    Paired Property (front.eraseIdx place) (others.eraseIdx place) where
  count := by
    have count := paired.count
    rw [List.length_eraseIdx, List.length_eraseIdx]
    split <;> split <;> omega
  each := by
    intro i a b at_a at_b
    rw [List.getElem?_eraseIdx] at at_a at_b
    by_cases before : i < place
    · rw [if_pos before] at at_a at_b
      exact paired.each i a b at_a at_b
    · rw [if_neg before] at at_a at_b
      exact paired.each (i + 1) a b at_a at_b

theorem Paired.update {place : Nat} {a' : α} {change : β → β}
    (new : ∀ a b, front[place]? = some a → Property a b → Property a' (change b)) :
    Paired Property (front.set place a') (others.modify place change) where
  count := by rw [List.length_modify, List.length_set, paired.count]
  each := by
    intro i a b at_a at_b
    rw [List.getElem?_set] at at_a
    rw [List.getElem?_modify] at at_b
    obtain ⟨old, at_old, changed⟩ := Option.map_eq_some_iff.mp at_b
    by_cases here : place = i
    · rw [if_pos here] at at_a changed
      split at at_a
      next inside =>
        cases at_a
        subst here
        have there := List.getElem?_eq_getElem inside
        exact changed ▸ new _ old there (paired.each place _ old there at_old)
      next => cases at_a
    · rw [if_neg here] at at_a changed
      exact changed ▸ paired.each i a old at_a at_old

theorem Paired.of_nil (none : front = []) : Paired Weaker front others := by
  subst none
  exact ⟨paired.count, fun i a b at_a _ => by cases at_a⟩

end

end Pairing

/-- What every call keeps of the tours. -/
structure Accounted (ownership : IDMapOwnershipSemantics) (watched : Watched K T) : Prop where
  valid : Valid ownership watched.session
  along : Paired (fun position tour => ∃ front rest, Along watched.session.map position tour front rest)
    watched.session.iterators watched.tours
  marked : ∀ id, id ∈ watched.session.map.removedIds ↔ id ∈ watched.removed

section Calling
variable [LE K] [DecidableLE K] {map : IDMap K T} (ownership : IDMapOwnershipSemantics)

theorem remove_inside (inside : map.iterationDepth ≠ 0) (id : K) :
    (map.remove ownership id).data = map.data ∧
      ∀ other, other ∈ (map.remove ownership id).removedIds ↔ (other = id ∧ id ∈ map.data) ∨ other ∈ map.removedIds := by
  unfold IDMap.remove
  cases found : map.data.lookup id with
  | none =>
    have absent : id ∉ map.data := AList.lookup_eq_none.mp found
    simp [absent]
  | some pointer =>
    have there : id ∈ map.data := AList.lookup_isSome.mp (found ▸ rfl)
    simp [inside, there]

theorem clear_inside (inside : map.iterationDepth ≠ 0) :
    (map.clear ownership).data = map.data ∧
      ∀ other, other ∈ (map.clear ownership).removedIds ↔ other ∈ map.data.keys ∨ other ∈ map.removedIds := by
  unfold IDMap.clear
  rw [if_neg inside]
  exact ⟨rfl, fun other => mem_foldl_markRemoved _ _ other⟩

variable {ownership : IDMapOwnershipSemantics} [Add K] [OfNat K 1] {order : HashOrder K T} {watched next : Watched K T}
  {call : Call K T}

theorem step_eq (moved : watched.step ownership order call = some next) :
    ∃ result, watched.session.exec ownership order call = some (next.session, result) ∧
      next.tours = watched.toursAfter next.session call ∧ next.removed = watched.removedAfter next.session call := by
  obtain ⟨⟨session, result⟩, ran, rfl⟩ := Option.map_eq_some_iff.mp moved
  exact ⟨result, ran, rfl, rfl⟩

variable {session : Session K T} {result : Result K T}

section
variable (accounted : Accounted ownership watched)
include accounted

theorem Accounted.along_step (quiet : watched.Quiet call)
    (ran : watched.session.exec ownership order call = some (session, result)) :
    Paired (fun position tour => ∃ front rest, Along session.map position tour front rest)
      session.iterators (watched.toursAfter session call) := by
  have known : ∀ id ∈ watched.present, id ∈ watched.session.map.data.keys :=
    fun _ member => (List.mem_filter.mp member).1
  have along := accounted.along
  cases call with
  | add data =>
    cases ran
    exact along.of_nil quiet
  | addWithID data id =>
    cases ran
    exact along.of_nil quiet
  | remove id =>
    cases ran
    by_cases outside : watched.session.map.iterationDepth = 0
    · exact along.of_nil (accounted.valid.outside.mp outside)
    · have removal := remove_inside ownership outside id
      exact along.imp fun position tour ⟨front, rest, along⟩ =>
        ⟨front, rest, along.mark removal.1 fun other member => (removal.2 other).mpr (.inr member)⟩
  | clear =>
    cases ran
    by_cases outside : watched.session.map.iterationDepth = 0
    · exact along.of_nil (accounted.valid.outside.mp outside)
    · have removal := clear_inside ownership outside
      exact along.imp fun position tour ⟨front, rest, along⟩ =>
        ⟨front, rest, along.mark removal.1 fun other member => (removal.2 other).mpr (.inr member)⟩
  | lookup id =>
    cases ran
    exact along
  | size =>
    cases ran
    exact along
  | isEmpty =>
    cases ran
    exact along
  | newIterator =>
    cases ran
    obtain ⟨front, rest, new⟩ := along_new known
    have tours : watched.toursAfter (watched.session.init watched.session.map.data.keys) .newIterator =
        watched.tours ++ [⟨watched.present,
          (watched.session.map.skipRemovedEntries watched.session.map.data.keys).toList⟩] := by
      simp [Watched.toursAfter, Watched.arrival, Session.init]
    rw [tours]
    have kept := along.imp fun position tour ⟨front, rest, along⟩ =>
      (⟨front, rest, along.mark rfl fun _ member => member⟩ :
        ∃ front rest, Along (watched.session.init watched.session.map.data.keys).map position tour front rest)
    exact kept.concat ⟨front, rest, new.mark rfl fun _ member => member⟩
  | copyIterator iterator =>
    simp only [Session.exec] at ran
    split at ran
    next => cases ran
    next position found =>
      cases ran
      have inside : iterator < watched.tours.length := by
        rw [along.count]
        exact (List.getElem?_eq_some_iff.mp found).1
      have at_tour := List.getElem?_eq_getElem inside
      obtain ⟨front, rest, original⟩ := along.each iterator position _ found at_tour
      obtain ⟨front, rest, copy⟩ := original.copy known
      have tours : watched.toursAfter (watched.session.init (watched.session.map.idsFrom position))
          (.copyIterator iterator) = watched.tours ++ [⟨watched.present,
            if position = watched.session.map.skipRemovedEntries (watched.session.map.idsFrom position) then
              watched.tours[iterator].visited
            else watched.tours[iterator].visited ++
              (watched.session.map.skipRemovedEntries (watched.session.map.idsFrom position)).toList⟩] := by
        simp [Watched.toursAfter, Watched.arrival, Session.init, found, at_tour]
      rw [tours]
      have kept := along.imp fun position tour ⟨front, rest, along⟩ =>
        (⟨front, rest, along.mark rfl fun _ member => member⟩ : ∃ front rest,
          Along (watched.session.init (watched.session.map.idsFrom position)).map position tour front rest)
      exact kept.concat ⟨front, rest, copy.mark rfl fun _ member => member⟩
  | advance iterator =>
    simp only [Session.exec] at ran
    split at ran
    next => cases ran
    next => cases ran
    next id found =>
      cases ran
      have inside := (List.getElem?_eq_some_iff.mp found).1
      refine along.update fun position tour at_position ⟨front, rest, before⟩ => ?_
      cases found.symm.trans at_position
      rw [Watched.arrival, List.getElem?_set_self inside]
      exact before.advance
  | destroyIterator iterator =>
    simp only [Session.exec] at ran
    split at ran
    next bound =>
      cases ran
      have remaining := along.eraseIdx iterator
      have depth := accounted.valid.depth
      unfold Session.destroyIterator
      dsimp only
      split
      next last =>
        have none : watched.session.iterators.eraseIdx iterator = [] := by
          rw [← List.length_eq_zero_iff, List.length_eraseIdx_of_lt bound]
          omega
        exact remaining.of_nil none
      next => exact remaining.imp fun position tour ⟨front, rest, along⟩ =>
        ⟨front, rest, along.mark rfl fun _ member => member⟩
    next => cases ran

theorem Accounted.marked_step
    (ran : watched.session.exec ownership order call = some (session, result)) (id : K) :
    id ∈ session.map.removedIds ↔ id ∈ watched.removedAfter session call := by
  have valid := accounted.valid.exec ran
  have marked := accounted.marked
  unfold Watched.removedAfter
  by_cases none : session.iterators = []
  · rw [if_pos none, valid.settled none]
  · rw [if_neg none]
    cases call with
    | remove removed =>
      cases ran
      have inside := mt accounted.valid.outside.mp none
      rw [(remove_inside ownership inside removed).2 id, marked]
      by_cases there : removed ∈ watched.session.map.data
      · simp only [there, and_true, if_true, List.mem_cons]
      · simp only [there, and_false, if_false, false_or]
    | clear =>
      cases ran
      have inside := mt accounted.valid.outside.mp none
      rw [(clear_inside ownership inside).2 id, marked, List.mem_append]
    | destroyIterator iterator =>
      simp only [Session.exec] at ran
      split at ran
      next bound =>
        cases ran
        have depth := accounted.valid.depth
        have others : watched.session.map.iterationDepth - 1 ≠ 0 := by
          have length := List.length_eq_zero_iff.not.mpr none
          rw [Session.destroyIterator, List.length_eraseIdx_of_lt bound] at length
          omega
        unfold Session.destroyIterator
        dsimp only
        rw [if_neg others]
        exact marked id
      next => cases ran
    | copyIterator iterator =>
      simp only [Session.exec] at ran
      split at ran
      next => cases ran
      next =>
        cases ran
        exact marked id
    | advance iterator =>
      simp only [Session.exec] at ran
      split at ran
      next => cases ran
      next => cases ran
      next =>
        cases ran
        exact marked id
    | _ =>
      cases ran
      exact marked id

theorem Accounted.step (quiet : watched.Quiet call)
    (moved : watched.step ownership order call = some next) : Accounted ownership next := by
  obtain ⟨result, ran, tours, removed⟩ := step_eq moved
  exact {
    valid := accounted.valid.exec ran
    along := tours ▸ accounted.along_step quiet ran
    marked := removed ▸ accounted.marked_step ran }

end

omit [LE K] [DecidableLE K] [Add K] in
theorem accounted_start : Accounted ownership (Watched.start : Watched K T) where
  valid := by
    refine ⟨rfl, fun _ => rfl, List.nodup_nil, nofun, nofun, fun _ => rfl⟩
  along := ⟨rfl, nofun⟩
  marked _ := Iff.rfl

/-- An iterator stands at a node that is there. Its visit goes along the nodes in their order, to each once, and when
it is at the end it has been at every id that was there when it was made and has not been removed. -/
structure Toured (watched : Watched K T) (position : Option K) (tour : Tour K) : Prop where
  alive : ∀ id, position = some id → id ∈ watched.session.map.data
  ordered : tour.visited.Sublist watched.session.map.data.keys
  once : tour.visited.Nodup
  complete : position = none → ∀ id ∈ tour.present, id ∉ watched.removed → id ∈ tour.visited

omit [LE K] [DecidableLE K] [Add K] [OfNat K 1] in
theorem toured_of_along {position : Option K} {tour : Tour K} {front rest : List K}
    (alive : ∀ id, position = some id → id ∈ watched.session.map.data)
    (marked : ∀ id, id ∈ watched.session.map.removedIds ↔ id ∈ watched.removed)
    (along : Along watched.session.map position tour front rest) : Toured watched position tour where
  alive := alive
  ordered := by
    rw [along.keys, ← List.append_assoc]
    exact along.visited.trans (List.sublist_append_left _ _)
  once := by
    have distinct := watched.session.map.data.keys_nodup
    rw [along.keys, ← List.append_assoc] at distinct
    exact (along.visited.trans (List.sublist_append_left _ _)).nodup distinct
  complete := by
    rintro rfl id present kept
    have ended : [] = rest := along.ahead
    refine (along.passed id (along.present id present) (mt (marked id).mp kept)).resolve_right ?_
    rw [← ended]
    exact List.not_mem_nil

omit [LE K] [DecidableLE K] [Add K] [OfNat K 1] in
theorem skipRemovedEntries_mem {ids : List K} {id : K} (found : map.skipRemovedEntries ids = some id) :
    id ∈ ids ∧ id ∉ map.removedIds :=
  ⟨mem_of_skipRemovedEntries found, by simpa using List.find?_some found⟩

/-- No call brings an iterator to an id that is not there or that has been removed. -/
theorem Accounted.arrival (accounted : Accounted ownership watched)
    (ran : watched.session.exec ownership order call = some (session, result)) {id : K}
    (arrived : Watched.arrival session call = some id) : id ∈ watched.session.map.data ∧ id ∉ watched.removed := by
  rw [← accounted.marked]
  cases call with
  | newIterator =>
    cases ran
    have found : watched.session.map.skipRemovedEntries watched.session.map.data.keys = some id := by
      simpa [Watched.arrival, Session.init] using arrived
    exact skipRemovedEntries_mem found
  | copyIterator iterator =>
    simp only [Session.exec] at ran
    split at ran
    next => cases ran
    next position _ =>
      cases ran
      have found : watched.session.map.skipRemovedEntries (watched.session.map.idsFrom position) = some id := by
        simpa [Watched.arrival, Session.init] using arrived
      exact (skipRemovedEntries_mem found).imp_left mem_of_mem_idsFrom
  | advance iterator =>
    simp only [Session.exec] at ran
    split at ran
    next => cases ran
    next => cases ran
    next position at_position =>
      cases ran
      rw [Watched.arrival, List.getElem?_set_self (List.getElem?_eq_some_iff.mp at_position).1] at arrived
      exact (skipRemovedEntries_mem arrived).imp_left fun member => mem_of_mem_idsFrom (List.mem_of_mem_tail member)
  | _ => cases arrived

theorem Accounted.compacts (accounted : Accounted ownership watched) (quiet : watched.Quiet call)
    (ran : watched.session.exec ownership order call = some (session, result))
    (some_alive : watched.session.iterators ≠ []) :
    (session.iterators ≠ [] → session.map.data = watched.session.map.data) ∧
      (session.iterators = [] → ∀ id, session.map.data.lookup id =
        if id ∈ watched.removed then none else watched.session.map.data.lookup id) := by
  have inside := mt accounted.valid.outside.mp some_alive
  cases call with
  | add data => exact absurd quiet some_alive
  | addWithID data id => exact absurd quiet some_alive
  | remove id =>
    cases ran
    exact ⟨fun _ => (remove_inside ownership inside id).1, fun none => absurd none some_alive⟩
  | clear =>
    cases ran
    exact ⟨fun _ => (clear_inside ownership inside).1, fun none => absurd none some_alive⟩
  | newIterator =>
    cases ran
    exact ⟨fun _ => rfl, fun none => absurd none (List.concat_ne_nil _ _)⟩
  | copyIterator iterator =>
    simp only [Session.exec] at ran
    split at ran
    next => cases ran
    next =>
      cases ran
      exact ⟨fun _ => rfl, fun none => absurd none (List.concat_ne_nil _ _)⟩
  | advance iterator =>
    simp only [Session.exec] at ran
    split at ran
    next => cases ran
    next => cases ran
    next =>
      cases ran
      exact ⟨fun _ => rfl, fun none => absurd ((List.set_eq_nil_iff _ _).mp none) some_alive⟩
  | destroyIterator iterator =>
    simp only [Session.exec] at ran
    split at ran
    next bound =>
      cases ran
      have depth := accounted.valid.depth
      have length := List.length_eraseIdx_of_lt bound
      unfold Session.destroyIterator
      dsimp only
      constructor
      · intro others
        have positive := List.length_pos_of_ne_nil others
        rw [if_neg (by omega)]
      · intro none id
        rw [none, List.length_nil] at length
        have last : watched.session.map.iterationDepth - 1 = 0 := by omega
        rw [if_pos last, (compact_forgets ownership last).2.2.1 id]
        simp only [accounted.marked]
    next => cases ran
  | _ =>
    cases ran
    exact ⟨fun _ => rfl, fun none => absurd none some_alive⟩

/-- Iteration. Whatever iterators are made, copied, advanced and destroyed, and whatever is removed meanwhile, each
visits in the order of the map every id that is there when it is made and stays, once. It is never at a node that is
gone and never comes to an id that has been removed. Nothing is erased while there are iterators, and with the last
one exactly the ids removed meanwhile are. -/
theorem idMap_iterates (reached : Library.Reaches (Watched.step ownership order) Watched.Quiet Watched.start watched) :
    Paired (Toured watched) watched.session.iterators watched.tours ∧
      ∀ (call : Call K T) (next : Watched K T), watched.Quiet call → watched.step ownership order call = some next →
        (∀ id, Watched.arrival next.session call = some id →
          id ∈ watched.session.map.data ∧ id ∉ watched.removed) ∧
        (watched.session.iterators ≠ [] →
          (next.session.iterators ≠ [] → next.session.map.data = watched.session.map.data) ∧
          (next.session.iterators = [] → ∀ id, next.session.map.data.lookup id =
            if id ∈ watched.removed then none else watched.session.map.data.lookup id)) := by
  have accounted : Accounted ownership watched :=
    reached.invariant (Accounted ownership) accounted_start fun _ _ _ accounted quiet moved =>
      accounted.step quiet moved
  constructor
  · refine ⟨accounted.along.count, fun i position tour at_position at_tour => ?_⟩
    obtain ⟨front, rest, along⟩ := accounted.along.each i position tour at_position at_tour
    refine toured_of_along (fun id same => ?_) accounted.marked along
    exact accounted.valid.alive id (same ▸ List.mem_of_getElem? at_position)
  · intro call next quiet moved
    obtain ⟨result, ran, -, -⟩ := step_eq moved
    exact ⟨fun id arrived => accounted.arrival ran arrived, accounted.compacts quiet ran⟩

end Calling

/-- A table that takes new entries in front. -/
def newestFirst : HashOrder Nat Nat := ⟨fun table id data => table.insert id data, fun _ _ _ => List.Perm.refl _⟩

theorem idMap_iterates_removing :
    ∃ watched : Watched Nat Nat, watched.removed = [1] ∧
      Paired (Toured watched) watched.session.iterators watched.tours := by
  have added : (Watched.start : Watched Nat Nat).Quiet (.addWithID (some 5) 1) := rfl
  refine ⟨_, ?_, (idMap_iterates (.next (.next (.next .start added
    (rfl : Watched.step .IDMapExternalPointer newestFirst _ _ = some _))
    (show Watched.Quiet _ .newIterator from trivial) rfl)
    (show Watched.Quiet _ (.remove 1) from trivial) rfl)).1⟩
  rfl

end Libchrome.Base.IdMap
