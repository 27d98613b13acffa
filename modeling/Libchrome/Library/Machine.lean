import Mathlib.Data.List.Basic

/-!
# Machines: states reached by guarded steps

A machine is a partial step function. `Reaches` collects the states of all its runs whose every
step meets a guard in the state before it; an invariant is proved of them one step at a time.
-/

namespace Libchrome.Library

variable {State Action : Type*}

/-- The states reached from `initial` by steps that each meet `guard` in the state before it. -/
inductive Reaches (step : State → Action → Option State) (guard : State → Action → Prop)
    (initial : State) : State → Prop where
  | start : Reaches step guard initial initial
  | next {before after : State} {action : Action} (reached : Reaches step guard initial before)
      (met : guard before action) (moved : step before action = some after) :
      Reaches step guard initial after

variable {step : State → Action → Option State} {guard : State → Action → Prop} {initial : State}

/-- What holds at first and is kept by every step that meets the guard holds of every state. -/
theorem Reaches.invariant (Holds : State → Prop) (first : Holds initial)
    (kept : ∀ before action after, Holds before → guard before action →
      step before action = some after → Holds after)
    {s : State} (reached : Reaches step guard initial s) : Holds s := by
  induction reached with
  | start => exact first
  | next _ met moved ih => exact kept _ _ _ ih met moved

/-- A step under a condition was taken where the condition holds. -/
theorem of_guarded {condition : Prop} [Decidable condition] {next after : State}
    (moved : (if condition then some next else none) = some after) : condition ∧ next = after :=
  (Option.ite_none_right_eq_some.mp moved).imp_right Option.some.inj

theorem of_guarded_bind {Found : Type*} {condition : Prop} [Decidable condition] {found : Option Found}
    {next : Found → Option State} {after : State}
    (moved : (if condition then found.bind next else none) = some after) :
    condition ∧ ∃ value, found = some value ∧ next value = some after :=
  (Option.ite_none_right_eq_some.mp moved).imp_right Option.bind_eq_some_iff.mp

/-- Take the listed actions one after the other, while each meets the guard. -/
def runFrom (step : State → Action → Option State) (guard : State → Action → Prop)
    [∀ s action, Decidable (guard s action)] : State → List Action → Option State
  | s, [] => some s
  | s, action :: rest =>
    if guard s action then (step s action).bind fun t => runFrom step guard t rest else none

theorem Reaches.run [∀ s action, Decidable (guard s action)] {actions : List Action} {s t : State}
    (reached : Reaches step guard initial s) (ran : runFrom step guard s actions = some t) :
    Reaches step guard initial t := by
  induction actions generalizing s with
  | nil =>
    cases ran
    exact reached
  | cons action rest ih =>
    obtain ⟨met, ran⟩ := Option.ite_none_right_eq_some.mp ran
    obtain ⟨middle, moved, ran⟩ := Option.bind_eq_some_iff.mp ran
    exact ih (.next reached met moved) ran

/-- A condition on a state and the action taken there, met at every step of a run. -/
def Meets (step : State → Action → Option State) (condition : State → Action → Prop) :
    State → List Action → Prop
  | _, [] => True
  | s, action :: rest => condition s action ∧ ∀ t, step s action = some t → Meets step condition t rest

/-- What each step keeps exactly when it meets a condition, a run keeps exactly when all its steps
meet the condition. -/
theorem run_keeps_iff [∀ s action, Decidable (guard s action)] (Holds Invariant : State → Prop)
    {condition : State → Action → Prop}
    (kept : ∀ before action after, Invariant before → guard before action →
      step before action = some after → Invariant after)
    (keeps : ∀ before action after, Invariant before → guard before action →
      step before action = some after → (Holds after ↔ Holds before ∧ condition before action))
    {actions : List Action} {s t : State} (invariant : Invariant s)
    (ran : runFrom step guard s actions = some t) :
    Holds t ↔ Holds s ∧ Meets step condition s actions := by
  induction actions generalizing s with
  | nil =>
    cases ran
    exact (and_iff_left trivial).symm
  | cons action rest ih =>
    obtain ⟨met, ran⟩ := Option.ite_none_right_eq_some.mp ran
    obtain ⟨middle, moved, ran⟩ := Option.bind_eq_some_iff.mp ran
    rw [ih (kept s action middle invariant met moved) ran, keeps s action middle invariant met moved, and_assoc]
    refine and_congr_right fun _ => and_congr_right fun _ => ⟨fun rest t same => ?_, fun all => all middle moved⟩
    exact (Option.some.inj (moved.symm.trans same)) ▸ rest

end Libchrome.Library

/-!
# What holds in all states of a run

A property that an invariant implies, that steps under a condition keep and that any other step
destroys, holds throughout exactly the runs whose steps all meet the condition.
-/

namespace Libchrome.Library

variable {State Action : Type*} {step : State → Action → Option State}

/-- The property holds in every state that the actions lead through. -/
def Always (step : State → Action → Option State) (Holds : State → Prop) : State → List Action → Prop
  | s, [] => Holds s
  | s, action :: rest => Holds s ∧ ∀ t, step s action = some t → Always step Holds t rest

theorem Always.now {Holds : State → Prop} {s : State} {actions : List Action} (always : Always step Holds s actions) :
    Holds s := by
  cases actions with
  | nil => exact always
  | cons action rest => exact always.1

variable {Holds Invariant : State → Prop} {condition guard : State → Action → Prop}

theorem always_iff_meets [∀ s action, Decidable (guard s action)] (holds : ∀ s, Invariant s → Holds s)
    (kept : ∀ before action after, Invariant before → condition before action →
      step before action = some after → Invariant after)
    (broken : ∀ before action after, Invariant before → ¬condition before action →
      step before action = some after → ¬Holds after)
    {actions : List Action} {s t : State} (invariant : Invariant s)
    (ran : runFrom step guard s actions = some t) : Always step Holds s actions ↔ Meets step condition s actions := by
  induction actions generalizing s with
  | nil => exact iff_of_true (holds s invariant) trivial
  | cons action rest ih =>
    obtain ⟨_, ran⟩ := Option.ite_none_right_eq_some.mp ran
    obtain ⟨middle, moved, ran⟩ := Option.bind_eq_some_iff.mp ran
    have only : ∀ u, step s action = some u → u = middle := fun u moved' =>
      Option.some.inj (moved'.symm.trans moved)
    constructor
    · intro always
      have met : condition s action := by
        by_contra unmet
        exact broken s action middle invariant unmet moved (always.2 middle moved).now
      refine ⟨met, fun u moved' => ?_⟩
      rw [only u moved']
      exact (ih (kept s action middle invariant met moved) ran).mp (always.2 middle moved)
    · intro meets
      refine ⟨holds s invariant, fun u moved' => ?_⟩
      rw [only u moved']
      exact (ih (kept s action middle invariant meets.1 moved) ran).mpr (meets.2 middle moved)

end Libchrome.Library
