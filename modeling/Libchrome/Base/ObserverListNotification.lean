import Libchrome.Library.Visiting
import Libchrome.Base.ObserverList

/-! Every notification follows a visit of the observers: whom it reaches, whatever the callbacks do. -/

namespace Libchrome.Base.ObserverList
open NotificationType Library.Visiting

variable {T : Type} [DecidableEq T]

abbrev Trace (T : Type) := List (Call T × Result T)

/-- The observers that the iterator of this name gave out. -/
def notifiedBy (name : Nat) (trace : Trace T) : List T :=
  trace.filterMap fun
    | (.getNext other, .next obs) => if other = name then obs else none
    | _ => none

def Call.removes (obs : T) : Call T → Bool
  | .removeObserver removed => removed = obs
  | .clear => true
  | _ => false

/-- The notification has run to its end. -/
def Complete (name : Nat) (trace : Trace T) : Prop := trace.getLast? = some (.getNext name, .next none)

/-- In the list when the notification starts, and not taken out before its end. -/
def presentThroughout (start : Session T) (trace : Trace T) (obs : T) : Bool :=
  start.list.hasObserver obs && trace.all fun step => !step.1.removes obs

/-- Whom a notification reaches: `start` is the session in which its iterator was just made, `trace` what follows. -/
structure Notifies (name : Nat) (start : Session T) (trace : Trace T) : Prop where
  inOrder : Complete name trace →
    (notifiedBy name trace).filter (presentThroughout start trace) =
      start.list.members.filter (presentThroughout start trace)
  once : Complete name trace → ∀ obs, presentThroughout start trace obs = true → (notifiedBy name trace).count obs = 1
  removed : ∀ earlier call result later obs, trace = earlier ++ (call, result) :: later → call.removes obs = true →
    (∀ step ∈ later, step.1 ≠ .addObserver obs) → obs ∉ notifiedBy name later
  existingOnly : start.list.type = NOTIFY_EXISTING_ONLY → ∀ earlier result later obs mid,
    trace = earlier ++ (.addObserver obs, result) :: later → Run start earlier mid → mid.list.hasObserver obs = false →
    obs ∉ notifiedBy name later ∧ (start.list.hasObserver obs = false → obs ∉ notifiedBy name trace)
  all : start.list.type = NOTIFY_ALL → Complete name trace → ∀ earlier result later obs mid,
    trace = earlier ++ (.addObserver obs, result) :: later → Run start earlier mid → mid.list.hasObserver obs = false →
    (∀ step ∈ later, step.1.removes obs = false) → (notifiedBy name later).count obs = 1

/-! ### The visit behind a notification -/

/-- What a step means to the visit of the iterator of this name. -/
def event (name : Nat) : Call T × Result T → Option (Event T)
  | (.addObserver obs, _) => some (.add obs)
  | (.removeObserver obs, _) => some (.remove obs)
  | (.clear, _) => some .clear
  | (.getNext other, .next obs) => if other = name then some (.next obs) else none
  | _ => none

/-- Observers that come late are visited too. -/
def late (list : ObserverListBase T) : Bool := list.type = NOTIFY_ALL

structure Follows (session : Session T) (name : Nat) (visit : Visit T) : Prop where
  members : visit.members = session.list.members
  waiting : ∃ iterator, session.iterators.lookup name = some iterator ∧ visit.waiting = iterator.waiting session.list

omit [DecidableEq T] in
theorem notifiedBy_eq_visited (name : Nat) (trace : Trace T) :
    notifiedBy name trace = visited (trace.filterMap (event name)) := by
  rw [visited, List.filterMap_filterMap, notifiedBy]
  congr 1
  funext step
  rcases step with ⟨call, result⟩
  cases call with
  | getNext other =>
    cases result with
    | done => rfl
    | next obs =>
      by_cases same : other = name
      · simp only [event, same, if_true, Option.bind_some, Event.answer?]
      · simp only [event, same, if_false, Option.bind_none]
  | addObserver | removeObserver | clear | newIterator | destroyIterator => rfl

variable {session next : Session T} {name : Nat} {visit : Visit T} {call : Call T} {result : Result T}

omit [DecidableEq T] in
theorem Follows.alive (follows : Follows session name visit) : name ∈ session.iterators := by
  rcases follows.waiting with ⟨iterator, found, _⟩
  rw [← AList.lookup_isSome, found]
  rfl

theorem exec_type (step : session.exec call = some (next, result)) : next.list.type = session.list.type := by
  cases call with
  | addObserver obs =>
    rcases Option.map_eq_some_iff.mp step with ⟨list, added, ⟨⟩⟩
    rcases addObserver_cases added with ⟨_, rfl⟩ | ⟨_, _, rfl⟩ <;> rfl
  | removeObserver obs =>
    cases step
    simp only [ObserverListBase.removeObserver]
    split
    · split <;> rfl
    · rfl
  | clear =>
    cases step
    simp only [ObserverListBase.clear]
    split <;> rfl
  | newIterator other =>
    simp only [Session.exec] at step
    split at step <;> cases step
    rfl
  | getNext other =>
    simp only [Session.exec] at step
    split at step <;> cases step
    rfl
  | destroyIterator other =>
    simp only [Session.exec] at step
    split at step <;> cases step
    simp only [ObserverListBase.endNotification]
    split <;> rfl

theorem Follows.addObserver (valid : Valid session) (follows : Follows session name visit) {obs : T}
    {list : ObserverListBase T} (added : session.list.addObserver obs = some list) :
    Follows { session with list } name (visit.add (late session.list) obs) := by
  rcases follows.waiting with ⟨iterator, found, waiting⟩
  unfold Visit.add
  rcases addObserver_cases added with ⟨present, rfl⟩ | ⟨absent, room, rfl⟩
  · rw [dif_pos (follows.members ▸ present)]
    exact follows
  · rw [dif_neg (follows.members ▸ absent)]
    refine ⟨?_, iterator, found, ?_⟩
    · exact (congrArg (· ++ [obs]) follows.members).trans members_append.symm
    · rw [waiting_append (valid.usable name iterator found) room, ← waiting]
      simp only [late, decide_eq_true_eq]

theorem Follows.removeObserver (valid : Valid session) (follows : Follows session name visit) (obs : T) :
    Follows { session with list := session.list.removeObserver obs } name (visit.step (late session.list) (.remove obs)) := by
  rcases follows.waiting with ⟨iterator, found, waiting⟩
  have inside := valid.inside follows.alive
  refine ⟨?_, iterator, found, ?_⟩
  · rw [removeObserver_members obs valid.distinct inside, ← follows.members]
    rfl
  · rw [removeObserver_waiting obs valid.distinct inside, ← waiting]
    rfl

theorem Follows.clear (valid : Valid session) (follows : Follows session name visit) :
    Follows { session with list := session.list.clear } name (visit.step (late session.list) .clear) := by
  rcases follows.waiting with ⟨iterator, found, _⟩
  have inside := valid.inside follows.alive
  refine ⟨?_, iterator, found, ?_⟩
  · rw [clear_members inside]
    rfl
  · rw [clear_waiting inside]
    rfl

omit [DecidableEq T] in
/-- What leaves the slots and the iterator alone leaves the visit alone. -/
theorem Follows.frame (follows : Follows session name visit)
    (observers : next.list.observers = session.list.observers)
    (iterators : next.iterators.lookup name = session.iterators.lookup name) : Follows next name visit := by
  rcases follows.waiting with ⟨iterator, found, waiting⟩
  refine ⟨?_, iterator, iterators.trans found, ?_⟩
  · rw [follows.members, ObserverListBase.members, ObserverListBase.members, observers]
  · rw [waiting, Iterator.waiting, Iterator.waiting, observers]

theorem Follows.getNext (valid : Valid session) (follows : Follows session name visit) {iterator : Iterator}
    (found : session.iterators.lookup name = some iterator) :
    (iterator.getNext session.list).2 = visit.waiting.head? ∧
    Follows { session with iterators := session.iterators.insert name (iterator.getNext session.list).1 } name
      (visit.step (late session.list) (.next (iterator.getNext session.list).2)) := by
  have taken := getNext_spec (valid.usable name iterator found)
  rcases follows.waiting with ⟨same, again, waiting⟩
  rw [found, Option.some.injEq] at again
  subst again
  refine ⟨?_, follows.members, (iterator.getNext session.list).1, AList.lookup_insert _, ?_⟩
  · rw [waiting, taken.1]
  · rw [taken.2.1, ← waiting]
    rfl

omit [DecidableEq T] in
/-- The last iterator to die is not this one, so the slots stay. -/
theorem Follows.destroyIterator (valid : Valid session) (follows : Follows session name visit) {other : Nat}
    (alive : other ∈ session.iterators) (different : name ≠ other) :
    Follows ⟨session.list.endNotification, session.iterators.erase other⟩ name visit := by
  have nested : session.list.notifyDepth - 1 ≠ 0 := by
    have others : 0 < (session.iterators.keys.erase other).length :=
      List.length_pos_of_mem ((List.mem_erase_of_ne different).mpr follows.alive)
    rw [List.length_erase_of_mem alive] at others
    rw [valid.depth]
    omega
  rw [endNotification_nested nested]
  exact follows.frame rfl (AList.lookup_erase_ne different)

theorem Follows.exec (valid : Valid session) (follows : Follows session name visit)
    (step : session.exec call = some (next, result)) (alive : call ≠ .destroyIterator name) :
    match event name (call, result) with
    | none => Follows next name visit
    | some event => (∀ answer, event = .next answer → answer = visit.waiting.head?) ∧
        Follows next name (visit.step (late session.list) event) := by
  cases call with
  | addObserver obs =>
    rcases Option.map_eq_some_iff.mp step with ⟨list, added, ⟨⟩⟩
    exact ⟨nofun, follows.addObserver valid added⟩
  | removeObserver obs =>
    cases step
    exact ⟨nofun, follows.removeObserver valid obs⟩
  | clear =>
    cases step
    exact ⟨nofun, follows.clear valid⟩
  | newIterator other =>
    simp only [Session.exec] at step
    split at step
    next => cases step
    next fresh =>
      cases step
      have different : name ≠ other := by
        rintro rfl
        exact fresh follows.alive
      exact follows.frame rfl (AList.lookup_insert_ne different)
  | getNext other =>
    simp only [Session.exec] at step
    split at step
    next => cases step
    next iterator found =>
      cases step
      by_cases same : other = name
      · subst same
        have moved := follows.getNext valid found
        simp only [event, if_true]
        refine ⟨?_, moved.2⟩
        rintro answer ⟨⟩
        exact moved.1
      · simp only [event, if_neg same]
        exact follows.frame rfl (AList.lookup_insert_ne (Ne.symm same))
  | destroyIterator other =>
    simp only [Session.exec] at step
    split at step
    next present =>
      cases step
      have different : name ≠ other := by
        rintro rfl
        exact alive rfl
      exact follows.destroyIterator valid present different
    next => cases step

variable {trace : Trace T}

theorem Follows.run {final : Session T} (valid : Valid session) (follows : Follows session name visit)
    (run : Run session trace final) (alive : ∀ step ∈ trace, step.1 ≠ .destroyIterator name) :
    visit.Answers (late session.list) (trace.filterMap (event name)) ∧
    Follows final name (visit.run (late session.list) (trace.filterMap (event name))) := by
  induction run generalizing visit with
  | nil => exact ⟨trivial, follows⟩
  | @cons session mid final call result trace step rest inductive_hypothesis =>
    have one := follows.exec valid step (alive _ List.mem_cons_self)
    have others := fun visit (following : Follows mid name visit) => inductive_hypothesis (valid.exec step) following
      (fun later member => alive later (List.mem_cons_of_mem _ member))
    have sameLate : late mid.list = late session.list := by rw [late, late, exec_type step]
    rw [sameLate] at others
    cases meaning : event name (call, result) with
    | none =>
      rw [meaning] at one
      rw [List.filterMap_cons_none meaning]
      exact others visit one
    | some event =>
      rw [meaning] at one
      rw [List.filterMap_cons_some meaning]
      have following := others _ one.2
      exact ⟨⟨one.1, following.1⟩, following.2⟩

/-! ### Runs -/

theorem Run.split {start final : Session T} {earlier later : Trace T} (run : Run start (earlier ++ later) final) :
    ∃ mid, Run start earlier mid ∧ Run mid later final := by
  induction earlier generalizing start with
  | nil => exact ⟨start, .nil start, run⟩
  | cons step rest inductive_hypothesis =>
    rcases run with _ | ⟨exec, remaining⟩
    rcases inductive_hypothesis remaining with ⟨mid, first, second⟩
    exact ⟨mid, .cons exec first, second⟩

theorem Run.unique {start mid other : Session T} (run : Run start trace mid) (again : Run start trace other) :
    mid = other := by
  induction run with
  | nil => cases again; rfl
  | cons step rest inductive_hypothesis =>
    rcases again with _ | ⟨exec, remaining⟩
    rw [step, Option.some.injEq, Prod.mk.injEq] at exec
    rcases exec with ⟨rfl, -⟩
    exact inductive_hypothesis remaining

omit [DecidableEq T] in
theorem event_complete (complete : Complete name trace) :
    ∃ events, trace.filterMap (event name) = events ++ [.next none] := by
  rcases List.getLast?_eq_some_iff.mp complete with ⟨earlier, rfl⟩
  refine ⟨earlier.filterMap (event name), ?_⟩
  simp only [List.filterMap_append, List.filterMap_cons, event, if_true, List.filterMap_nil]

theorem event_removes {step : Call T × Result T} {meaning : Event T} (means : event name step = some meaning) (obs : T) :
    meaning.removes obs = step.1.removes obs := by
  rcases step with ⟨call, result⟩
  cases call with
  | addObserver | removeObserver | clear => cases means; rfl
  | newIterator | destroyIterator => cases means
  | getNext other =>
    cases result with
    | done => cases means
    | next answer =>
      simp only [event] at means
      split at means
      · cases means; rfl
      · cases means

omit [DecidableEq T] in
theorem event_add {step : Call T × Result T} {obs : T} (means : event name step = some (.add obs)) :
    step.1 = .addObserver obs := by
  rcases step with ⟨call, result⟩
  cases call with
  | addObserver other => cases means; rfl
  | removeObserver | clear | newIterator | destroyIterator => cases means
  | getNext other =>
    cases result with
    | done => cases means
    | next answer =>
      simp only [event] at means
      split at means <;> cases means

/-- A notification that has ended reached, in order, whatever was waiting and stayed. -/
theorem Follows.complete {final : Session T} (valid : Valid session) (follows : Follows session name visit)
    (run : Run session trace final) (alive : ∀ step ∈ trace, step.1 ≠ .destroyIterator name)
    (complete : Complete name trace) (kept : T → Bool) (members : ∀ obs, kept obs = true → obs ∈ visit.members)
    (stays : ∀ step ∈ trace, ∀ obs, kept obs = true → step.1.removes obs = false) :
    (notifiedBy name trace).filter kept = visit.waiting.filter kept := by
  have answers := (follows.run valid run alive).1
  rw [← Visit.filter_visited (late session.list) visit (trace.filterMap (event name)) kept answers members,
    notifiedBy_eq_visited]
  · rcases event_complete complete with ⟨events, split⟩
    rw [split] at answers ⊢
    rw [Visit.waiting_of_answered_none answers, List.append_nil]
  · intro meaning member obs holds
    rcases List.mem_filterMap.mp member with ⟨step, inTrace, means⟩
    rw [event_removes means]
    exact stays step inTrace obs holds

/-- An observer that is not waiting is not reached, unless it comes late to a list that notifies all. -/
theorem Follows.not_mem {final : Session T} (valid : Valid session) (follows : Follows session name visit)
    (run : Run session trace final) (alive : ∀ step ∈ trace, step.1 ≠ .destroyIterator name) {obs : T}
    (absent : obs ∉ visit.waiting) (never : late session.list = true → ∀ step ∈ trace, step.1 ≠ .addObserver obs) :
    obs ∉ notifiedBy name trace := by
  rw [notifiedBy_eq_visited]
  apply Visit.not_mem_visited (late session.list) visit _ (follows.run valid run alive).1 absent
  intro isLate member
  rcases List.mem_filterMap.mp member with ⟨step, inTrace, means⟩
  exact never isLate step inTrace (event_add means)

theorem run_type {final : Session T} (run : Run session trace final) : final.list.type = session.list.type := by
  induction run with
  | nil => rfl
  | cons step rest inductive_hypothesis => exact inductive_hypothesis.trans (exec_type step)

/-- The visit that a new iterator starts on. -/
def Visit.start (list : ObserverListBase T) (distinct : list.members.Nodup) : Visit T :=
  ⟨list.members, list.members, distinct, List.Sublist.refl _⟩

theorem newIterator_follows {before start : Session T} (valid : Valid before)
    (created : before.exec (.newIterator name) = some (start, .done)) :
    ∃ visit, Follows start name visit ∧ visit.members = start.list.members ∧ visit.waiting = start.list.members := by
  simp only [Session.exec] at created
  split at created
  next => cases created
  next fresh =>
    cases created
    refine ⟨Visit.start before.list valid.distinct, ⟨rfl, Iterator.new before.list, AList.lookup_insert _, ?_⟩, rfl, rfl⟩
    exact (new_waiting valid.bound).symm

theorem presentThroughout_iff {start : Session T} {obs : T} :
    presentThroughout start trace obs = true ↔
      obs ∈ start.list.members ∧ ∀ step ∈ trace, step.1.removes obs = false := by
  rw [presentThroughout, Bool.and_eq_true, hasObserver_iff, List.all_eq_true]
  simp only [Bool.not_eq_true']

theorem count_eq_one {observers waiting : List T} {obs : T} {kept : T → Bool} (holds : kept obs = true)
    (same : observers.filter kept = waiting.filter kept) (distinct : waiting.Nodup) (member : obs ∈ waiting) :
    observers.count obs = 1 := by
  calc observers.count obs
    _ = (observers.filter kept).count obs := (List.count_filter holds).symm
    _ = (waiting.filter kept).count obs := by rw [same]
    _ = waiting.count obs := List.count_filter holds
    _ = 1 := List.count_eq_one_of_mem distinct member

/-- The visit at a step of a notification, and the run from there. -/
theorem Follows.at {start final : Session T} {earlier later : Trace T} (valid : Valid start)
    (follows : Follows start name visit) (run : Run start (earlier ++ later) final)
    (alive : ∀ step ∈ earlier ++ later, step.1 ≠ .destroyIterator name) :
    ∃ mid there, Run start earlier mid ∧ Valid mid ∧ Follows mid name there ∧ Run mid later final ∧
      ∀ step ∈ later, step.1 ≠ .destroyIterator name := by
  rcases run.split with ⟨mid, first, second⟩
  have there := follows.run valid first (fun step member => alive step (List.mem_append_left _ member))
  exact ⟨mid, _, first, valid.run first, there.2, second, fun step member => alive step (List.mem_append_right _ member)⟩

section
variable {mid final : Session T} {later : Trace T} {obs : T}

theorem Follows.removed_not_mem (valid : Valid mid) (follows : Follows mid name visit)
    (run : Run mid ((call, result) :: later) final)
    (alive : ∀ step ∈ (call, result) :: later, step.1 ≠ .destroyIterator name) (removes : call.removes obs = true)
    (never : ∀ step ∈ later, step.1 ≠ .addObserver obs) : obs ∉ notifiedBy name later := by
  rcases run with _ | ⟨step, rest⟩
  have one := follows.exec valid step (alive _ List.mem_cons_self)
  have aliveRest := fun step member => alive step (List.mem_cons_of_mem _ member)
  cases call with
  | removeObserver removed =>
    have same : removed = obs := of_decide_eq_true removes
    subst same
    apply one.2.not_mem (valid.exec step) rest aliveRest _ (fun _ => never)
    exact (visit.distinct.sublist visit.within).not_mem_erase
  | clear => exact one.2.not_mem (valid.exec step) rest aliveRest List.not_mem_nil (fun _ => never)
  | addObserver | newIterator | getNext | destroyIterator => cases removes

theorem Follows.absent (follows : Follows mid name visit) (absent : mid.list.hasObserver obs = false) :
    obs ∉ visit.members := by
  rw [follows.members, ← hasObserver_iff, absent]
  exact Bool.false_ne_true

theorem Follows.added_existingOnly (valid : Valid mid) (follows : Follows mid name visit)
    (run : Run mid ((.addObserver obs, result) :: later) final)
    (alive : ∀ step ∈ (.addObserver obs, result) :: later, step.1 ≠ .destroyIterator name)
    (notLate : late mid.list = false) (absent : mid.list.hasObserver obs = false) : obs ∉ notifiedBy name later := by
  rcases run with _ | ⟨step, rest⟩
  have one := follows.exec valid step (alive _ List.mem_cons_self)
  apply one.2.not_mem (valid.exec step) rest (fun step member => alive step (List.mem_cons_of_mem _ member))
  · intro member
    rw [Visit.step, Visit.add_waiting _ (follows.absent absent), notLate] at member
    exact follows.absent absent (visit.within.mem member)
  · intro isLate
    have kept : late mid.list = true := by rw [← isLate, late, late, exec_type step]
    cases notLate.symm.trans kept

theorem Follows.added_all (valid : Valid mid) (follows : Follows mid name visit)
    (run : Run mid ((.addObserver obs, result) :: later) final)
    (alive : ∀ step ∈ (.addObserver obs, result) :: later, step.1 ≠ .destroyIterator name)
    (isLate : late mid.list = true) (absent : mid.list.hasObserver obs = false) (complete : Complete name later)
    (stays : ∀ step ∈ later, step.1.removes obs = false) : (notifiedBy name later).count obs = 1 := by
  rcases run with _ | ⟨step, rest⟩
  have one := follows.exec valid step (alive _ List.mem_cons_self)
  have members : obs ∈ (visit.add (late mid.list) obs).members := by
    rw [Visit.add_members _ (follows.absent absent)]
    exact List.mem_append_right _ List.mem_cons_self
  have waiting : obs ∈ (visit.add (late mid.list) obs).waiting := by
    rw [Visit.add_waiting _ (follows.absent absent), if_pos isLate]
    exact List.mem_append_right _ List.mem_cons_self
  have reached := one.2.complete (valid.exec step) rest (fun step member => alive step (List.mem_cons_of_mem _ member))
    complete (fun other => decide (other = obs))
    (fun other same => of_decide_eq_true same ▸ members)
    (fun step member other same => of_decide_eq_true same ▸ stays step member)
  have unique := (visit.add (late mid.list) obs).distinct.sublist (visit.add (late mid.list) obs).within
  exact count_eq_one (decide_eq_true rfl) reached unique waiting

end

theorem Follows.notifies {start final : Session T} (valid : Valid start) (follows : Follows start name visit)
    (members : visit.members = start.list.members) (waiting : visit.waiting = start.list.members)
    (run : Run start trace final) (alive : ∀ step ∈ trace, step.1 ≠ .destroyIterator name) :
    Notifies name start trace := by
  have inOrder : Complete name trace → (notifiedBy name trace).filter (presentThroughout start trace) =
      start.list.members.filter (presentThroughout start trace) := by
    intro complete
    rw [← waiting]
    apply follows.complete valid run alive complete
    · intro obs holds
      exact members ▸ (presentThroughout_iff.mp holds).1
    · intro step member obs holds
      exact (presentThroughout_iff.mp holds).2 step member
  refine ⟨inOrder, ?_, ?_, ?_, ?_⟩
  · intro complete obs holds
    exact count_eq_one holds (inOrder complete) valid.distinct (presentThroughout_iff.mp holds).1
  · intro earlier call result later obs split removes never
    subst split
    rcases follows.at valid run alive with ⟨mid, there, -, validMid, followsMid, rest, aliveLater⟩
    exact followsMid.removed_not_mem validMid rest aliveLater removes never
  · intro existingOnly earlier result later obs mid split first absent
    have notLate : late start.list = false := by
      rw [late, existingOnly]
      rfl
    constructor
    · subst split
      rcases follows.at valid run alive with ⟨same, there, again, validMid, followsMid, rest, aliveLater⟩
      have unique := first.unique again
      subst unique
      apply followsMid.added_existingOnly validMid rest aliveLater _ absent
      rw [late, run_type first]
      exact notLate
    · intro absentAtStart
      apply follows.not_mem valid run alive
      · rw [waiting, ← hasObserver_iff, absentAtStart]
        exact Bool.false_ne_true
      · exact fun isLate => (Bool.false_ne_true (notLate.symm.trans isLate)).elim
  · intro notifyAll complete earlier result later obs mid split first absent stays
    subst split
    rcases follows.at valid run alive with ⟨same, there, again, validMid, followsMid, rest, aliveLater⟩
    have unique := first.unique again
    subst unique
    have completeLater : Complete name later := by
      rw [Complete, List.getLast?_append_cons] at complete
      cases later with
      | nil => cases complete
      | cons step rest => exact complete
    apply followsMid.added_all validMid rest aliveLater _ absent completeLater stays
    rw [late, run_type first, notifyAll]
    rfl

/-- In every state that a list reaches: the depth counts the live iterators, outside a notification no slot is null,
and whatever runs from a new iterator on, nested notifications included, it notifies as it should. -/
theorem observerList_notifies (type : NotificationType) {history : Trace T} {before : Session T}
    (reached : Run (Session.new type) history before) :
    before.list.notifyDepth = before.iterators.keys.length ∧
    (before.list.notifyDepth = 0 → none ∉ before.list.observers) ∧
    ∀ name start trace final, before.exec (.newIterator name) = some (start, .done) → Run start trace final →
      (∀ step ∈ trace, step.1 ≠ .destroyIterator name) → Notifies name start trace := by
  have valid := (valid_new type).run reached
  refine ⟨valid.depth, valid.compact, ?_⟩
  intro name start trace final created run alive
  rcases newIterator_follows valid created with ⟨visit, follows, members, waiting⟩
  exact follows.notifies (valid.exec created) members waiting run alive

/-- Observer 1 removes itself and adds observer 3, which this notification does not reach. -/
theorem observerList_notifies_existingOnly :
    ∃ before start final : Session Nat,
      Run (Session.new NOTIFY_EXISTING_ONLY) [(.addObserver 1, .done), (.addObserver 2, .done)] before ∧
      before.exec (.newIterator 0) = some (start, .done) ∧
      Run start [(.getNext 0, .next (some 1)), (.removeObserver 1, .done), (.addObserver 3, .done),
        (.getNext 0, .next (some 2)), (.getNext 0, .next none)] final ∧
      Notifies 0 start [(.getNext 0, .next (some 1)), (.removeObserver 1, .done), (.addObserver 3, .done),
        (.getNext 0, .next (some 2)), (.getNext 0, .next none)] := by
  have history : Run (Session.new NOTIFY_EXISTING_ONLY) [(.addObserver 1, .done), (.addObserver 2, .done)]
      (⟨⟨[some 1, some 2], 0, NOTIFY_EXISTING_ONLY⟩, ∅⟩ : Session Nat) := .cons rfl (.cons rfl (.nil _))
  have loop : ∃ final : Session Nat,
      Run ⟨⟨[some 1, some 2], 1, NOTIFY_EXISTING_ONLY⟩, AList.singleton 0 ⟨0, 2⟩⟩
        [(.getNext 0, .next (some 1)), (.removeObserver 1, .done), (.addObserver 3, .done),
          (.getNext 0, .next (some 2)), (.getNext 0, .next none)] final :=
    ⟨_, .cons rfl (.cons rfl (.cons rfl (.cons rfl (.cons rfl (.nil _)))))⟩
  rcases loop with ⟨final, run⟩
  have notifies := (observerList_notifies NOTIFY_EXISTING_ONLY history).2.2 0 _ _ _ rfl run (by decide)
  exact ⟨_, _, final, history, rfl, run, notifies⟩

end Libchrome.Base.ObserverList
