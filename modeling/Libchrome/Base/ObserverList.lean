import Mathlib.Data.Finmap
import Mathlib.Data.List.ReduceOption
import Mathlib.Data.List.Nodup

/-! `ObserverListBase` and the iterators alive on it; the list outlives them, so their weak pointers hold. -/

namespace Libchrome.Base.ObserverList

inductive NotificationType where
  | NOTIFY_ALL
  | NOTIFY_EXISTING_ONLY
  deriving DecidableEq, Repr
open NotificationType

/-- `std::numeric_limits<size_t>::max()`. -/
def sizeMax : Nat := 2 ^ 64 - 1

/-- `max_size()` of a vector of pointers. -/
def vectorMaxSize : Nat := 2 ^ 60 - 1

/-- A slot of `observers` is `none` for the null pointer; an observer is never null. -/
structure ObserverListBase (T : Type) where
  observers : List (Option T)
  notifyDepth : Int
  type : NotificationType

structure Iterator where
  index : Nat
  maxIndex : Nat

namespace Iterator
variable {T : Type}

def new (list : ObserverListBase T) : Iterator where
  index := 0
  maxIndex := match list.type with
    | NOTIFY_ALL => sizeMax
    | NOTIFY_EXISTING_ONLY => list.observers.length

/-- The loop of `GetNext`, over the slots from `index` on. -/
def skipNull : List (Option T) → Nat → Nat
  | none :: slots, index => skipNull slots (index + 1)
  | _, index => index

def getNext (list : ObserverListBase T) (iterator : Iterator) : Iterator × Option T :=
  let maxIndex := min iterator.maxIndex list.observers.length
  let index := skipNull ((list.observers.take maxIndex).drop iterator.index) iterator.index
  if index < maxIndex then ({ iterator with index := index + 1 }, list.observers[index]?.join)
  else ({ iterator with index }, none)

end Iterator

namespace ObserverListBase
variable {T : Type}

def new (type : NotificationType) : ObserverListBase T := ⟨[], 0, type⟩

def clear (list : ObserverListBase T) : ObserverListBase T :=
  if list.notifyDepth ≠ 0 then { list with observers := list.observers.map fun _ => none }
  else { list with observers := [] }

def compact (list : ObserverListBase T) : ObserverListBase T :=
  { list with observers := list.observers.filter Option.isSome }

/-- `~Iterator`. -/
def endNotification (list : ObserverListBase T) : ObserverListBase T :=
  let list := { list with notifyDepth := list.notifyDepth - 1 }
  if list.notifyDepth = 0 then list.compact else list

variable [DecidableEq T]

/-- `none` is a vector that cannot grow. -/
def addObserver (list : ObserverListBase T) (obs : T) : Option (ObserverListBase T) :=
  if some obs ∈ list.observers then some list
  else if list.observers.length < vectorMaxSize then some { list with observers := list.observers ++ [some obs] }
  else none

def removeObserver (list : ObserverListBase T) (obs : T) : ObserverListBase T :=
  if some obs ∈ list.observers then
    if list.notifyDepth ≠ 0 then { list with observers := list.observers.replace (some obs) none }
    else { list with observers := list.observers.erase (some obs) }
  else list

def hasObserver (list : ObserverListBase T) (obs : T) : Bool := list.observers.any (· = some obs)

end ObserverListBase

/-- What the code around a list does, callbacks included; an iterator is named by its creator. -/
inductive Call (T : Type) where
  | addObserver (obs : T)
  | removeObserver (obs : T)
  | clear
  | newIterator (name : Nat)
  | getNext (name : Nat)
  | destroyIterator (name : Nat)
  deriving DecidableEq

inductive Result (T : Type) where
  | done
  | next (obs : Option T)
  deriving DecidableEq

structure Session (T : Type) where
  list : ObserverListBase T
  iterators : AList fun _ : Nat => Iterator

namespace Session
variable {T : Type} [DecidableEq T]

def new (type : NotificationType) : Session T := ⟨ObserverListBase.new type, ∅⟩

/-- One call; `none` for one that cannot be: a name in use, an iterator that is not alive, a vector that cannot grow. -/
def exec (session : Session T) : Call T → Option (Session T × Result T)
  | .addObserver obs => (session.list.addObserver obs).map fun list => ({ session with list }, .done)
  | .removeObserver obs => some ({ session with list := session.list.removeObserver obs }, .done)
  | .clear => some ({ session with list := session.list.clear }, .done)
  | .newIterator name =>
    if name ∈ session.iterators then none
    else some (⟨{ session.list with notifyDepth := session.list.notifyDepth + 1 },
      session.iterators.insert name (Iterator.new session.list)⟩, .done)
  | .getNext name =>
    match session.iterators.lookup name with
    | none => none
    | some iterator =>
      let (iterator, obs) := iterator.getNext session.list
      some ({ session with iterators := session.iterators.insert name iterator }, .next obs)
  | .destroyIterator name =>
    if name ∈ session.iterators then
      some (⟨session.list.endNotification, session.iterators.erase name⟩, .done)
    else none

end Session

/-- A sequence of calls with their results, however the notifications nest. -/
inductive Run {T : Type} [DecidableEq T] : Session T → List (Call T × Result T) → Session T → Prop where
  | nil (session) : Run session [] session
  | cons {session mid final call result trace} (step : session.exec call = some (mid, result))
      (rest : Run mid trace final) : Run session ((call, result) :: trace) final

/-! What holds of an observer list and its iterators in every state of every run. -/

variable {T : Type}

/-- The observers of a list, in order. -/
def ObserverListBase.members (list : ObserverListBase T) : List T := list.observers.reduceOption

/-- The observers that an iterator has yet to come to. -/
def Iterator.waiting (iterator : Iterator) (list : ObserverListBase T) : List T :=
  ((list.observers.take iterator.maxIndex).drop iterator.index).reduceOption

/-- An iterator that can still be used: its index is in the list, and its bound is the one its list gave it. -/
structure Iterator.Usable (iterator : Iterator) (list : ObserverListBase T) : Prop where
  index : iterator.index ≤ min iterator.maxIndex list.observers.length
  all : list.type = NOTIFY_ALL → iterator.maxIndex = sizeMax
  existing : list.type = NOTIFY_EXISTING_ONLY → iterator.maxIndex ≤ list.observers.length

structure Valid (session : Session T) : Prop where
  depth : session.list.notifyDepth = session.iterators.keys.length
  compact : session.list.notifyDepth = 0 → none ∉ session.list.observers
  distinct : session.list.members.Nodup
  bound : session.list.observers.length ≤ vectorMaxSize
  usable : ∀ name iterator, session.iterators.lookup name = some iterator → iterator.Usable session.list

/-! ### Slots -/

theorem mem_members (list : ObserverListBase T) (obs : T) : obs ∈ list.members ↔ some obs ∈ list.observers :=
  List.reduceOption_mem_iff

theorem reduceOption_filter_isSome (slots : List (Option T)) :
    (slots.filter Option.isSome).reduceOption = slots.reduceOption := by
  induction slots with
  | nil => rfl
  | cons slot rest inductive_hypothesis =>
    cases slot with
    | none => simpa only [List.filter_cons, Option.isSome_none, Bool.false_eq_true, if_false, List.reduceOption_cons_of_none]
    | some obs =>
      simpa only [List.filter_cons, Option.isSome_some, if_true, List.reduceOption_cons_of_some, List.cons.injEq, true_and]

theorem reduceOption_sublist {slots others : List (Option T)} (sublist : slots.Sublist others) :
    slots.reduceOption.Sublist others.reduceOption := sublist.filterMap id

section
variable [DecidableEq T]

theorem hasObserver_iff (list : ObserverListBase T) (obs : T) : list.hasObserver obs = true ↔ obs ∈ list.members := by
  rw [mem_members, ObserverListBase.hasObserver, List.any_eq_true]
  constructor
  · rintro ⟨slot, member, same⟩
    exact of_decide_eq_true same ▸ member
  · exact fun member => ⟨some obs, member, decide_eq_true rfl⟩

/-- A slot without the observer. -/
def without (obs : T) (slot : Option T) : Option T := if slot = some obs then none else slot

theorem replace_eq_map {slots : List (Option T)} (distinct : slots.reduceOption.Nodup) (obs : T) :
    slots.replace (some obs) none = slots.map (without obs) := by
  induction slots with
  | nil => rfl
  | cons slot rest inductive_hypothesis =>
    by_cases same : slot = some obs
    · subst same
      rw [List.reduceOption_cons_of_some, List.nodup_cons] at distinct
      have unchanged : rest.map (without obs) = rest := by
        apply (List.map_congr_left ?_).trans (List.map_id rest)
        intro other member
        rw [without, if_neg]
        · rfl
        · rintro rfl
          exact distinct.1 (List.reduceOption_mem_iff.mpr member)
      rw [List.replace_cons_self, List.map_cons, unchanged, without, if_pos rfl]
    · have others : rest.reduceOption.Nodup := distinct.sublist (reduceOption_sublist (List.sublist_cons_self _ _))
      rw [List.replace_cons, List.map_cons, without, if_neg same, inductive_hypothesis others]
      split
      next equal => exact (same (beq_iff_eq.mp equal).symm).elim
      next => rfl

theorem reduceOption_map_without (slots : List (Option T)) (obs : T) :
    (slots.map (without obs)).reduceOption = slots.reduceOption.filter (· != obs) := by
  induction slots with
  | nil => rfl
  | cons slot rest inductive_hypothesis =>
    rw [List.map_cons]
    cases slot with
    | none => exact inductive_hypothesis
    | some other =>
      by_cases same : other = obs
      · rw [same, without, if_pos rfl, List.reduceOption_cons_of_none, List.reduceOption_cons_of_some, inductive_hypothesis,
          List.filter_cons_of_neg (by simp only [bne_self_eq_false, Bool.false_eq_true, not_false_eq_true])]
      · have kept : without obs (some other) = some other := if_neg (fun equal => same (Option.some.inj equal))
        rw [kept, List.reduceOption_cons_of_some, List.reduceOption_cons_of_some, inductive_hypothesis,
          List.filter_cons, if_pos (bne_iff_ne.mpr same)]

end

theorem reduceOption_map_null (slots : List (Option T)) : (slots.map fun _ => (none : Option T)).reduceOption = [] := by
  rw [List.map_const', List.reduceOption_replicate_none]

/-! ### `GetNext` -/

theorem skipNull_spec (slots remaining : List (Option T)) (index : Nat) (suffix : slots.drop index = remaining)
    (bound : index ≤ slots.length) :
    let stop := Iterator.skipNull remaining index
    index ≤ stop ∧ stop ≤ slots.length ∧ (slots.drop stop).reduceOption = remaining.reduceOption ∧
      (stop < slots.length → ∃ obs, slots[stop]? = some (some obs)) := by
  induction remaining generalizing index with
  | nil =>
    have length := congrArg List.length suffix
    rw [List.length_drop, List.length_nil] at length
    refine ⟨Nat.le_refl _, bound, ?_, ?_⟩
    · rw [show Iterator.skipNull ([] : List (Option T)) index = index from rfl, suffix]
    · intro inside
      change index < slots.length at inside
      omega
  | cons slot rest inductive_hypothesis =>
    have inside : index < slots.length := by
      have length := congrArg List.length suffix
      rw [List.length_drop, List.length_cons] at length
      omega
    rw [List.drop_eq_getElem_cons inside, List.cons.injEq] at suffix
    cases slot with
    | some obs =>
      refine ⟨Nat.le_refl _, bound, ?_, ?_⟩
      · rw [show Iterator.skipNull (some obs :: rest) index = index from rfl, List.drop_eq_getElem_cons inside,
          suffix.1, suffix.2]
      · intro _
        refine ⟨obs, ?_⟩
        rw [show Iterator.skipNull (some obs :: rest) index = index from rfl, List.getElem?_eq_getElem inside, suffix.1]
    | none =>
      have skipped := inductive_hypothesis (index + 1) suffix.2 inside
      refine ⟨Nat.le_of_succ_le skipped.1, skipped.2.1, ?_, skipped.2.2.2⟩
      rw [List.reduceOption_cons_of_none]
      exact skipped.2.2.1

variable {iterator : Iterator}

/-- `GetNext` answers the first of the observers that are waiting and leaves the others. -/
theorem getNext_spec {list : ObserverListBase T} (usable : iterator.Usable list) :
    (iterator.getNext list).2 = (iterator.waiting list).head? ∧
    (iterator.getNext list).1.waiting list = (iterator.waiting list).tail ∧
    (iterator.getNext list).1.Usable list := by
  have length : (list.observers.take iterator.maxIndex).length = min iterator.maxIndex list.observers.length :=
    List.length_take
  have taken : list.observers.take (min iterator.maxIndex list.observers.length) = list.observers.take iterator.maxIndex :=
    List.take_eq_take_min.symm
  have skipped := skipNull_spec (list.observers.take iterator.maxIndex) _ iterator.index rfl (length ▸ usable.index)
  simp only [length] at skipped
  unfold Iterator.getNext Iterator.waiting
  simp only [taken]
  generalize Iterator.skipNull ((list.observers.take iterator.maxIndex).drop iterator.index) iterator.index = stop at skipped
  rw [← skipped.2.2.1]
  by_cases inside : stop < min iterator.maxIndex list.observers.length
  · rcases skipped.2.2.2 inside with ⟨obs, found⟩
    have within : stop < (list.observers.take iterator.maxIndex).length := length ▸ inside
    rw [List.getElem?_eq_getElem within, Option.some.injEq] at found
    have answer : list.observers[stop]?.join = some obs := by
      rw [← List.getElem?_take_of_lt (show stop < iterator.maxIndex by omega), List.getElem?_eq_getElem within, found]
      rfl
    rw [List.drop_eq_getElem_cons within, found, List.reduceOption_cons_of_some, if_pos inside]
    exact ⟨answer, rfl, inside, usable.all, usable.existing⟩
  · have atEnd : (list.observers.take iterator.maxIndex).drop stop = [] := List.drop_eq_nil_of_le (by omega)
    simp only [if_neg inside, atEnd, List.reduceOption_nil, List.head?_nil, List.tail_nil, true_and]
    exact ⟨skipped.2.1, usable.all, usable.existing⟩

/-! ### The calls, on the list -/

theorem vectorMaxSize_le : vectorMaxSize ≤ sizeMax := by decide

theorem Iterator.Usable.mono {list next : ObserverListBase T} (usable : iterator.Usable list)
    (type : next.type = list.type) (grows : list.observers.length ≤ next.observers.length) : iterator.Usable next where
  index := by
    have index := usable.index
    omega
  all := fun notifyAll => usable.all (type ▸ notifyAll)
  existing := fun existingOnly => (usable.existing (type ▸ existingOnly)).trans grows

theorem waiting_sublist (iterator : Iterator) (list : ObserverListBase T) :
    (iterator.waiting list).Sublist list.members :=
  reduceOption_sublist ((List.drop_sublist _ _).trans (List.take_sublist _ _))

theorem new_usable {list : ObserverListBase T} (depth : Int) :
    (Iterator.new list).Usable { list with notifyDepth := depth } where
  index := Nat.zero_le _
  all := by
    intro notifyAll
    simp only [Iterator.new, show list.type = NOTIFY_ALL from notifyAll]
  existing := by
    intro existingOnly
    simp only [Iterator.new, show list.type = NOTIFY_EXISTING_ONLY from existingOnly, Nat.le_refl]

theorem new_waiting {list : ObserverListBase T} (bound : list.observers.length ≤ vectorMaxSize) :
    (Iterator.new list).waiting list = list.members := by
  have whole : list.observers.take (Iterator.new list).maxIndex = list.observers := by
    apply List.take_of_length_le
    unfold Iterator.new
    cases list.type with
    | NOTIFY_ALL => exact bound.trans vectorMaxSize_le
    | NOTIFY_EXISTING_ONLY => exact Nat.le_refl _
  rw [Iterator.waiting, whole]
  rfl

variable {list next : ObserverListBase T} {obs : T}

theorem members_append : ({ list with observers := list.observers ++ [some obs] } : ObserverListBase T).members =
    list.members ++ [obs] := by
  rw [ObserverListBase.members, List.reduceOption_append, List.reduceOption_singleton]
  rfl

theorem waiting_append (usable : iterator.Usable list) (room : list.observers.length < vectorMaxSize) :
    iterator.waiting { list with observers := list.observers ++ [some obs] } =
      if list.type = NOTIFY_ALL then iterator.waiting list ++ [obs] else iterator.waiting list := by
  have index := usable.index
  unfold Iterator.waiting
  cases type : list.type with
  | NOTIFY_ALL =>
    have large : vectorMaxSize ≤ iterator.maxIndex := by
      rw [usable.all type]
      exact vectorMaxSize_le
    have grown : (list.observers ++ [some obs]).length ≤ iterator.maxIndex := by
      rw [List.length_append, List.length_singleton]
      omega
    rw [if_pos rfl, List.take_of_length_le grown, List.take_of_length_le (show list.observers.length ≤ _ by omega),
      List.drop_append_of_le_length (by omega), List.reduceOption_append, List.reduceOption_singleton]
    rfl
  | NOTIFY_EXISTING_ONLY =>
    rw [if_neg NotificationType.noConfusion, List.take_append_of_le_length (usable.existing type)]

theorem clear_inside (inside : list.notifyDepth ≠ 0) :
    list.clear = { list with observers := list.observers.map fun _ => none } := if_pos inside

theorem clear_members (inside : list.notifyDepth ≠ 0) : list.clear.members = [] := by
  rw [clear_inside inside]
  exact reduceOption_map_null list.observers

theorem clear_waiting (inside : list.notifyDepth ≠ 0) (iterator : Iterator) : iterator.waiting list.clear = [] := by
  rw [clear_inside inside, Iterator.waiting, ← List.map_take, ← List.map_drop, reduceOption_map_null]

/-! ### Iterators alive -/

theorem length_keys_insert (iterators : AList fun _ : Nat => Iterator) (name : Nat) (iterator : Iterator) :
    (iterators.insert name iterator).keys.length =
      if name ∈ iterators then iterators.keys.length else iterators.keys.length + 1 := by
  rw [AList.keys_insert, List.length_cons]
  split
  next present =>
    rw [List.length_erase_of_mem present]
    exact Nat.succ_pred_eq_of_pos (List.length_pos_of_mem present)
  next absent => rw [List.erase_of_not_mem absent]

variable {session : Session T}

section
variable (valid : Valid session)
include valid

theorem Valid.inside {name : Nat} (alive : name ∈ session.iterators) :
    session.list.notifyDepth ≠ 0 := by
  have some_ : 0 < session.iterators.keys.length := List.length_pos_of_mem alive
  rw [valid.depth]
  omega

/-- A change of the list that keeps depth and type, and shrinks no slot under an iterator. -/
theorem Valid.changeList (depth : next.notifyDepth = session.list.notifyDepth)
    (type : next.type = session.list.type) (compact : session.list.notifyDepth = 0 → none ∉ next.observers)
    (distinct : next.members.Nodup) (bound : next.observers.length ≤ vectorMaxSize)
    (grows : session.list.notifyDepth ≠ 0 → session.list.observers.length ≤ next.observers.length) :
    Valid { session with list := next } where
  depth := depth.trans valid.depth
  compact := fun outside => compact (depth.symm.trans outside)
  distinct := distinct
  bound := bound
  usable := by
    intro name iterator found
    have alive : name ∈ session.iterators := by
      rw [← AList.lookup_isSome, found]
      rfl
    exact (valid.usable name iterator found).mono type (grows (valid.inside alive))

theorem Valid.clear : Valid { session with list := session.list.clear } := by
  by_cases outside : session.list.notifyDepth = 0
  · rw [ObserverListBase.clear, if_neg (not_not.mpr outside)]
    exact valid.changeList rfl rfl (fun _ => List.not_mem_nil) List.nodup_nil (Nat.zero_le _)
      (fun inside => (inside outside).elim)
  · have members := clear_members outside
    rw [clear_inside outside] at members ⊢
    refine valid.changeList rfl rfl ?_ ?_ ?_ ?_
    · exact fun really => (outside really).elim
    · rw [members]
      exact List.nodup_nil
    · simpa only [List.length_map] using valid.bound
    · simp only [List.length_map, Nat.le_refl, implies_true]

theorem Valid.newIterator {name : Nat} (fresh : name ∉ session.iterators) :
    Valid ⟨{ session.list with notifyDepth := session.list.notifyDepth + 1 },
      session.iterators.insert name (Iterator.new session.list)⟩ where
  depth := by
    rw [length_keys_insert, if_neg fresh]
    have depth := valid.depth
    change session.list.notifyDepth + 1 = _
    omega
  compact := by
    intro outside
    have depth := valid.depth
    change session.list.notifyDepth + 1 = 0 at outside
    omega
  distinct := valid.distinct
  bound := valid.bound
  usable := by
    intro other iterator found
    by_cases same : other = name
    · subst same
      rw [AList.lookup_insert, Option.some.injEq] at found
      exact found ▸ new_usable _
    · rw [AList.lookup_insert_ne same] at found
      exact (valid.usable other iterator found).mono rfl (Nat.le_refl _)

theorem Valid.getNext {name : Nat} (alive : session.iterators.lookup name = some iterator) :
    Valid { session with iterators := session.iterators.insert name (iterator.getNext session.list).1 } where
  depth := by
    have present : name ∈ session.iterators := by
      rw [← AList.lookup_isSome, alive]
      rfl
    rw [length_keys_insert, if_pos present]
    exact valid.depth
  compact := valid.compact
  distinct := valid.distinct
  bound := valid.bound
  usable := by
    intro other moved found
    by_cases same : other = name
    · subst same
      rw [AList.lookup_insert, Option.some.injEq] at found
      exact found ▸ (getNext_spec (valid.usable other iterator alive)).2.2
    · rw [AList.lookup_insert_ne same] at found
      exact valid.usable other moved found

end

theorem endNotification_last {list : ObserverListBase T} (last : list.notifyDepth - 1 = 0) :
    list.endNotification = { list with notifyDepth := 0, observers := list.observers.filter Option.isSome } := by
  simp only [ObserverListBase.endNotification, last, if_true, ObserverListBase.compact]

theorem endNotification_nested {list : ObserverListBase T} (nested : list.notifyDepth - 1 ≠ 0) :
    list.endNotification = { list with notifyDepth := list.notifyDepth - 1 } := if_neg nested

theorem Valid.destroyIterator (valid : Valid session) {name : Nat} (alive : name ∈ session.iterators) :
    Valid ⟨session.list.endNotification, session.iterators.erase name⟩ := by
  have remaining : session.list.notifyDepth - 1 = (session.iterators.erase name).keys.length := by
    have some_ : 0 < session.iterators.keys.length := List.length_pos_of_mem alive
    rw [AList.keys_erase, List.length_erase_of_mem alive, valid.depth]
    omega
  by_cases last : session.list.notifyDepth - 1 = 0
  · rw [endNotification_last last]
    exact {
      depth := last.symm.trans remaining
      compact := by
        intro _ member
        exact Bool.false_ne_true (List.mem_filter.mp member).2
      distinct := by
        rw [ObserverListBase.members, reduceOption_filter_isSome]
        exact valid.distinct
      bound := (List.length_filter_le _ _).trans valid.bound
      usable := by
        intro other iterator found
        have empty : (session.iterators.erase name).keys = [] := List.length_eq_zero_iff.mp (by omega)
        have present : other ∈ (session.iterators.erase name).keys := by
          rw [← AList.mem_keys, ← AList.lookup_isSome, found]
          rfl
        rw [empty] at present
        cases present }
  · rw [endNotification_nested last]
    exact {
      depth := remaining
      compact := fun outside => (last outside).elim
      distinct := valid.distinct
      bound := valid.bound
      usable := by
        intro other iterator found
        have different : other ≠ name := by
          rintro rfl
          rw [AList.lookup_erase] at found
          cases found
        rw [AList.lookup_erase_ne different] at found
        exact (valid.usable other iterator found).mono rfl (Nat.le_refl _) }

section
variable [DecidableEq T]

theorem addObserver_cases (added : list.addObserver obs = some next) :
    (obs ∈ list.members ∧ next = list) ∨
    (obs ∉ list.members ∧ list.observers.length < vectorMaxSize ∧
      next = { list with observers := list.observers ++ [some obs] }) := by
  unfold ObserverListBase.addObserver at added
  rw [mem_members]
  split at added
  next present =>
    left
    exact ⟨present, (Option.some.inj added).symm⟩
  next absent =>
    split at added
    next room =>
      right
      exact ⟨absent, room, (Option.some.inj added).symm⟩
    next => cases added

/-- During a notification the slots stay where they are. -/
theorem removeObserver_inside (distinct : list.members.Nodup) (inside : list.notifyDepth ≠ 0) :
    list.removeObserver obs = { list with observers := list.observers.map (without obs) } := by
  by_cases present : some obs ∈ list.observers
  · rw [ObserverListBase.removeObserver, if_pos present, if_pos inside, replace_eq_map distinct]
  · rw [ObserverListBase.removeObserver, if_neg present, ← replace_eq_map distinct, List.replace_of_not_mem present]

theorem removeObserver_members (obs : T) (distinct : list.members.Nodup) (inside : list.notifyDepth ≠ 0) :
    (list.removeObserver obs).members = list.members.erase obs := by
  rw [removeObserver_inside distinct inside, distinct.erase_eq_filter]
  exact reduceOption_map_without list.observers obs

theorem removeObserver_waiting (obs : T) (distinct : list.members.Nodup) (inside : list.notifyDepth ≠ 0) (iterator : Iterator) :
    iterator.waiting (list.removeObserver obs) = (iterator.waiting list).erase obs := by
  rw [removeObserver_inside distinct inside, (distinct.sublist (waiting_sublist iterator list)).erase_eq_filter]
  unfold Iterator.waiting
  rw [← List.map_take, ← List.map_drop, reduceOption_map_without]

theorem removeObserver_outside (outside : list.notifyDepth = 0) :
    list.removeObserver obs = { list with observers := list.observers.erase (some obs) } := by
  by_cases present : some obs ∈ list.observers
  · rw [ObserverListBase.removeObserver, if_pos present, if_neg (not_not.mpr outside)]
  · rw [ObserverListBase.removeObserver, if_neg present, List.erase_of_not_mem present]

variable {session : Session T}

theorem Valid.addObserver (valid : Valid session) (added : session.list.addObserver obs = some next) :
    Valid { session with list := next } := by
  rcases addObserver_cases added with ⟨_, rfl⟩ | ⟨absent, room, rfl⟩
  · exact valid
  · refine valid.changeList rfl rfl ?_ ?_ ?_ ?_
    · intro outside member
      rcases List.mem_append.mp member with old | new
      · exact valid.compact outside old
      · cases List.mem_singleton.mp new
    · rw [members_append, ← List.concat_eq_append]
      exact valid.distinct.concat absent
    · simp only [List.length_append, List.length_singleton]
      omega
    · intro _
      simp only [List.length_append, List.length_singleton, Nat.le_add_right]

theorem Valid.removeObserver (valid : Valid session) (obs : T) :
    Valid { session with list := session.list.removeObserver obs } := by
  by_cases outside : session.list.notifyDepth = 0
  · have sublist : (session.list.observers.erase (some obs)).Sublist session.list.observers := List.erase_sublist
    rw [removeObserver_outside outside]
    refine valid.changeList rfl rfl ?_ ?_ ?_ ?_
    · exact fun _ member => valid.compact outside (sublist.mem member)
    · exact valid.distinct.sublist (reduceOption_sublist sublist)
    · exact sublist.length_le.trans valid.bound
    · exact fun inside => (inside outside).elim
  · have distinct := removeObserver_members obs valid.distinct outside
    rw [removeObserver_inside valid.distinct outside] at distinct ⊢
    refine valid.changeList rfl rfl ?_ ?_ ?_ ?_
    · exact fun really => (outside really).elim
    · rw [distinct]
      exact valid.distinct.erase obs
    · simpa only [List.length_map] using valid.bound
    · simp only [List.length_map, Nat.le_refl, implies_true]

theorem Valid.exec {next : Session T} {call : Call T} {result : Result T} (valid : Valid session)
    (step : session.exec call = some (next, result)) : Valid next := by
  cases call with
  | addObserver obs =>
    rcases Option.map_eq_some_iff.mp step with ⟨list, added, ⟨⟩⟩
    exact valid.addObserver added
  | removeObserver obs =>
    cases step
    exact valid.removeObserver obs
  | clear =>
    cases step
    exact valid.clear
  | newIterator name =>
    simp only [Session.exec] at step
    split at step
    next => cases step
    next fresh =>
      cases step
      exact valid.newIterator fresh
  | getNext name =>
    simp only [Session.exec] at step
    split at step
    next => cases step
    next iterator alive =>
      cases step
      exact valid.getNext alive
  | destroyIterator name =>
    simp only [Session.exec] at step
    split at step
    next alive =>
      cases step
      exact valid.destroyIterator alive
    next => cases step

omit [DecidableEq T] in
theorem valid_new (type : NotificationType) : Valid (Session.new type : Session T) where
  depth := rfl
  compact := fun _ => List.not_mem_nil
  distinct := List.nodup_nil
  bound := Nat.zero_le _
  usable := nofun

theorem Valid.run {final : Session T} {trace : List (Call T × Result T)} (valid : Valid session)
    (run : Run session trace final) : Valid final := by
  induction run with
  | nil => exact valid
  | cons step rest inductive_hypothesis => exact inductive_hypothesis (valid.exec step)

end

end Libchrome.Base.ObserverList
