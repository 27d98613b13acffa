import Mathlib.Data.List.Nodup

/-! A visit to the items of a list that changes meanwhile: what is still to come, and what was visited in the end. -/

namespace Libchrome.Library.Visiting

inductive Event (T : Type) where
  | add (item : T)
  | remove (item : T)
  | clear
  | next (answer : Option T)

/-- The items of a list, and in their order those that the visit has yet to come to. -/
structure Visit (T : Type) where
  members : List T
  waiting : List T
  distinct : members.Nodup
  within : waiting.Sublist members

variable {T : Type} [DecidableEq T]

namespace Event

def removes (item : T) : Event T → Bool
  | remove removed => removed = item
  | clear => true
  | _ => false

def answer? : Event T → Option T
  | next answer => answer
  | _ => none

end Event

namespace Visit

/-- The list takes an item it does not have; a `late` visit will come to it. -/
def add (late : Bool) (visit : Visit T) (item : T) : Visit T :=
  if present : item ∈ visit.members then visit
  else {
    members := visit.members ++ [item]
    waiting := if late then visit.waiting ++ [item] else visit.waiting
    distinct := by rw [← List.concat_eq_append]; exact visit.distinct.concat present
    within := by
      split
      · exact visit.within.append (List.Sublist.refl _)
      · exact visit.within.trans (List.sublist_append_left _ _) }

def step (late : Bool) (visit : Visit T) : Event T → Visit T
  | .add item => visit.add late item
  | .remove item => ⟨visit.members.erase item, visit.waiting.erase item, visit.distinct.erase item, visit.within.erase item⟩
  | .clear => ⟨[], [], List.nodup_nil, List.Sublist.refl _⟩
  | .next _ => { visit with waiting := visit.waiting.tail, within := (List.tail_sublist _).trans visit.within }

def run (late : Bool) (visit : Visit T) (events : List (Event T)) : Visit T := events.foldl (step late) visit

/-- Each answer is the first item that was waiting. -/
def Answers (late : Bool) : Visit T → List (Event T) → Prop
  | _, [] => True
  | visit, event :: events =>
    (∀ answer, event = .next answer → answer = visit.waiting.head?) ∧ Answers late (visit.step late event) events

end Visit

/-- The items that a visit came to. -/
def visited (events : List (Event T)) : List T := events.filterMap Event.answer?

omit [DecidableEq T] in
@[simp] theorem visited_cons (event : Event T) (events : List (Event T)) :
    visited (event :: events) = event.answer?.toList ++ visited events := by
  cases answered : event.answer? with
  | none => simp only [visited, List.filterMap_cons_none answered, Option.toList_none, List.nil_append]
  | some item => simp only [visited, List.filterMap_cons_some answered, Option.toList_some, List.singleton_append]

namespace Visit

theorem add_members (late : Bool) {visit : Visit T} {item : T} (absent : item ∉ visit.members) :
    (visit.add late item).members = visit.members ++ [item] := by rw [add, dif_neg absent]

theorem add_waiting (late : Bool) {visit : Visit T} {item : T} (absent : item ∉ visit.members) :
    (visit.add late item).waiting = if late then visit.waiting ++ [item] else visit.waiting := by rw [add, dif_neg absent]

theorem answers_append (late : Bool) (visit : Visit T) (events others : List (Event T)) :
    visit.Answers late (events ++ others) ↔ visit.Answers late events ∧ (visit.run late events).Answers late others := by
  induction events generalizing visit with
  | nil => exact (and_iff_right trivial).symm
  | cons event rest inductive_hypothesis =>
    rw [List.cons_append, Answers, Answers, inductive_hypothesis, and_assoc]
    rfl

/-- A visit that has just answered with nothing has nothing to come to. -/
theorem waiting_of_answered_none {late : Bool} {visit : Visit T} {events : List (Event T)}
    (answers : visit.Answers late (events ++ [.next none])) : (visit.run late (events ++ [.next none])).waiting = [] := by
  have last := ((answers_append late visit events _).mp answers).2.1 none rfl
  have empty : (visit.run late events).waiting = [] := List.head?_eq_none_iff.mp last.symm
  rw [run, List.foldl_append]
  change (visit.run late events).waiting.tail = []
  rw [empty, List.tail_nil]

theorem mem_step (late : Bool) (visit : Visit T) {event : Event T} {item : T} (member : item ∈ visit.members)
    (stays : event.removes item = false) : item ∈ (visit.step late event).members := by
  cases event with
  | add added =>
    simp only [step, add]
    split
    · exact member
    · exact List.mem_append_left _ member
  | remove removed =>
    have different : item ≠ removed := by
      rintro rfl
      simp only [Event.removes, decide_true, Bool.true_eq_false] at stays
    exact (List.mem_erase_of_ne different).mpr member
  | clear => cases stays
  | next answer => exact member

theorem filter_step (late : Bool) (visit : Visit T) (event : Event T) (kept : T → Bool)
    (members : ∀ item, kept item = true → item ∈ visit.members)
    (stays : ∀ item, kept item = true → event.removes item = false)
    (answers : ∀ answer, event = .next answer → answer = visit.waiting.head?) :
    visit.waiting.filter kept = event.answer?.toList.filter kept ++ (visit.step late event).waiting.filter kept := by
  cases event with
  | add added =>
    simp only [Event.answer?, Option.toList_none, List.filter_nil, List.nil_append, step, add]
    split
    · rfl
    next absent =>
      have notKept : kept added ≠ true := fun holds => absent (members added holds)
      cases late with
      | true => simp only [if_true, List.filter_append, List.filter_cons_of_neg notKept, List.filter_nil, List.append_nil]
      | false => rfl
  | remove removed =>
    have notKept : kept removed ≠ true := by
      intro holds
      have staying := stays removed holds
      simp only [Event.removes, decide_true, Bool.true_eq_false] at staying
    have unique : visit.waiting.Nodup := visit.distinct.sublist visit.within
    simp only [Event.answer?, Option.toList_none, List.filter_nil, List.nil_append, step, unique.erase_eq_filter,
      List.filter_filter]
    apply List.filter_congr
    intro item member
    by_cases same : item = removed
    · subst same
      rw [Bool.eq_false_iff.mpr notKept, Bool.false_and]
    · rw [bne_iff_ne.mpr same, Bool.and_true]
  | clear =>
    have noneKept : ∀ item, kept item ≠ true := fun item holds => by cases stays item holds
    simp only [Event.answer?, Option.toList_none, List.filter_nil, List.nil_append, step, List.filter_eq_nil_iff]
    exact fun item _ => noneKept item
  | next answer =>
    rw [answers answer rfl]
    cases waiting : visit.waiting with
    | nil => simp only [Event.answer?, List.head?_nil, Option.toList_none, step, waiting, List.tail_nil, List.filter_nil, List.append_nil]
    | cons first rest =>
      simp only [Event.answer?, List.head?_cons, Option.toList_some, step, waiting, List.tail_cons, ← List.filter_append,
        List.singleton_append]

/-- Whatever stays in the list is visited in its order, or is still waiting. -/
theorem filter_visited (late : Bool) (visit : Visit T) (events : List (Event T)) (kept : T → Bool)
    (answers : visit.Answers late events) (members : ∀ item, kept item = true → item ∈ visit.members)
    (stays : ∀ event ∈ events, ∀ item, kept item = true → event.removes item = false) :
    (visited events ++ (visit.run late events).waiting).filter kept = visit.waiting.filter kept := by
  induction events generalizing visit with
  | nil => rfl
  | cons event rest inductive_hypothesis =>
    have first := stays event List.mem_cons_self
    have others := inductive_hypothesis (visit.step late event) answers.2
      (fun item holds => mem_step late visit (members item holds) (first item holds))
      (fun later member => stays later (List.mem_cons_of_mem _ member))
    calc (visited (event :: rest) ++ (visit.run late (event :: rest)).waiting).filter kept
      _ = event.answer?.toList.filter kept ++ (visited rest ++ ((visit.step late event).run late rest).waiting).filter kept := by
        rw [visited_cons, List.append_assoc, List.filter_append]
        rfl
      _ = event.answer?.toList.filter kept ++ (visit.step late event).waiting.filter kept := by rw [others]
      _ = visit.waiting.filter kept := (filter_step late visit event kept members first answers.1).symm

/-- An item that is not waiting is not visited unless it comes late. -/
theorem not_mem_visited (late : Bool) (visit : Visit T) (events : List (Event T)) {item : T}
    (answers : visit.Answers late events) (absent : item ∉ visit.waiting)
    (never : late = true → Event.add item ∉ events) : item ∉ visited events := by
  induction events generalizing visit with
  | nil => exact List.not_mem_nil
  | cons event rest inductive_hypothesis =>
    have later : late = true → Event.add item ∉ rest := fun isLate member => never isLate (List.mem_cons_of_mem _ member)
    have stillAbsent : item ∉ (visit.step late event).waiting := by
      cases event with
      | add added =>
        simp only [step, add]
        split
        · exact absent
        next =>
          split
          next isLate =>
            have different : item ≠ added := by
              rintro rfl
              exact never isLate List.mem_cons_self
            simp only [List.mem_append, absent, List.mem_singleton, different, or_self, not_false_eq_true]
          next => exact absent
      | remove removed => exact fun member => absent (List.mem_of_mem_erase member)
      | clear => exact List.not_mem_nil
      | next answer => exact fun member => absent (List.mem_of_mem_tail member)
    have notNow : item ∉ event.answer?.toList := by
      cases event with
      | next answer =>
        rw [Event.answer?, answers.1 answer rfl, Option.mem_toList]
        exact fun first => absent (List.mem_of_mem_head? first)
      | add | remove | clear => exact List.not_mem_nil
    rw [visited_cons, List.mem_append]
    rintro (now | then_)
    · exact notNow now
    · exact inductive_hypothesis (visit.step late event) answers.2 stillAbsent later then_

end Visit

end Libchrome.Library.Visiting
