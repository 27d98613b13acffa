import Mathlib.Data.List.Lex
import Mathlib.Order.Fin.Basic
import Libchrome.Library.OrderedMap

/-! # `FieldTrial` and `FieldTrialList`, as far as their states are written to a string and read from one -/

namespace Libchrome.Base.Metrics

open Library

/-- A `std::string`, by the unsigned values of its characters: their order is its order. -/
abbrev Text := List (Fin 256)

/-- Characters are written as literals. -/
instance char_neZero : NeZero 256 := ⟨Nat.succ_ne_zero 255⟩

def kPersistentStringSeparator : Fin 256 := 47

def kActivationMarker : Fin 256 := 42

/-- `"%d"`. -/
def decimal (number : Int) : Text :=
  (toString number).toList.map fun digit => Fin.ofNat 256 digit.toNat

structure FieldTrial where
  trialName : Text
  divisor : Int
  defaultGroupName : Text
  random : Int
  accumulatedGroupProbability : Int
  nextGroupNumber : Int
  group : Int
  groupName : Text
  enableFieldTrial : Bool
  forced : Bool
  groupReported : Bool
  trialRegistered : Bool
  deriving DecidableEq, Repr

namespace FieldTrial

def kNotFinalized : Int := -1

def kDefaultGroupNumber : Int := 0

/-- `FieldTrial::State`. -/
structure State where
  trialName : Text
  groupName : Text
  activated : Bool
  deriving DecidableEq, Repr

/-- What `AllStatesToString` appends for one trial. -/
def State.render (state : State) : Text :=
  (if state.activated then [kActivationMarker] else []) ++ state.trialName ++ [kPersistentStringSeparator] ++
    state.groupName ++ [kPersistentStringSeparator]

structure ActiveGroup where
  trialName : Text
  groupName : Text
  deriving DecidableEq, Repr

/-- The constructor. `random` is the boundary that the entropy value gives. -/
def new (trialName : Text) (totalProbability : Int) (defaultGroupName : Text) (random : Int) : FieldTrial where
  trialName
  divisor := totalProbability
  defaultGroupName
  random
  accumulatedGroupProbability := 0
  nextGroupNumber := kDefaultGroupNumber + 1
  group := kNotFinalized
  groupName := []
  enableFieldTrial := true
  forced := false
  groupReported := false
  trialRegistered := false

def setTrialRegistered (trial : FieldTrial) : FieldTrial := { trial with trialRegistered := true }

def setGroupChoice (trial : FieldTrial) (groupName : Text) (number : Int) : FieldTrial :=
  { trial with
    group := number
    groupName := if groupName.isEmpty then trial.groupName ++ decimal number else groupName }

def finalizeGroupChoice (trial : FieldTrial) : FieldTrial :=
  if trial.group ≠ kNotFinalized then trial
  else
    { trial with accumulatedGroupProbability := trial.divisor }.setGroupChoice trial.defaultGroupName
      kDefaultGroupNumber

def setForced (trial : FieldTrial) : FieldTrial :=
  if trial.forced then trial else { trial.finalizeGroupChoice with forced := true }

def getActiveGroup (trial : FieldTrial) : Option ActiveGroup :=
  if !trial.groupReported || !trial.enableFieldTrial then none else some ⟨trial.trialName, trial.groupName⟩

/-- The trial may be finalized on the way. -/
def getState (trial : FieldTrial) : FieldTrial × Option State :=
  if !trial.enableFieldTrial then (trial, none)
  else
    let trial := trial.finalizeGroupChoice
    (trial, some ⟨trial.trialName, trial.groupName, trial.groupReported⟩)

section
variable (trial : FieldTrial)
include trial

@[simp] theorem finalizeGroupChoice_trialName :
    trial.finalizeGroupChoice.trialName = trial.trialName := by
  unfold finalizeGroupChoice
  split <;> rfl

@[simp] theorem finalizeGroupChoice_trialRegistered :
    trial.finalizeGroupChoice.trialRegistered = trial.trialRegistered := by
  unfold finalizeGroupChoice
  split <;> rfl

@[simp] theorem finalizeGroupChoice_groupReported :
    trial.finalizeGroupChoice.groupReported = trial.groupReported := by
  unfold finalizeGroupChoice
  split <;> rfl

@[simp] theorem finalizeGroupChoice_enableFieldTrial :
    trial.finalizeGroupChoice.enableFieldTrial = trial.enableFieldTrial := by
  unfold finalizeGroupChoice
  split <;> rfl

theorem getState_trialName : trial.getState.1.trialName = trial.trialName := by
  unfold getState
  split
  · rfl
  · exact trial.finalizeGroupChoice_trialName

theorem getState_trialRegistered : trial.getState.1.trialRegistered = trial.trialRegistered := by
  unfold getState
  split
  · rfl
  · exact trial.finalizeGroupChoice_trialRegistered

end

/-- The trial that `CreateFieldTrial` makes, registered and then forced. -/
def createForced (name groupName : Text) : FieldTrial := (new name 100 groupName 0).setTrialRegistered.setForced

theorem createForced_trialRegistered (name groupName : Text) : (createForced name groupName).trialRegistered = true :=
  finalizeGroupChoice_trialRegistered _

end FieldTrial

open FieldTrial

/-! ### The string -/

/-- `find` with a position to start from; `none` for `npos`. -/
def findFrom (text : Text) (character : Fin 256) (position : Nat) : Option Nat :=
  ((text.drop position).findIdx? (· == character)).map (position + ·)

def substr (text : Text) (position count : Nat) : Text := (text.drop position).take count

/-- The loop of `ParseFieldTrialsString`. A turn passes a character at least, so `turns` need not exceed the
length of the string. -/
def parseFrom (trialsString : Text) : (turns nextItem : Nat) → List State → List State × Bool
  | 0, _, entries => (entries, true)
  | turns + 1, nextItem, entries =>
    if nextItem < trialsString.length then
      match findFrom trialsString kPersistentStringSeparator nextItem with
      | none => (entries, false)
      | some nameEnd =>
        let groupNameEnd := findFrom trialsString kPersistentStringSeparator (nameEnd + 1)
        if nextItem = nameEnd ∨ groupNameEnd = some (nameEnd + 1) then (entries, false)
        else
          let groupNameEnd := groupNameEnd.getD trialsString.length
          let activated := trialsString[nextItem]? == some kActivationMarker
          if activated ∧ nameEnd - nextItem = 1 then (entries, false)
          else
            let nextItem := if activated then nextItem + 1 else nextItem
            parseFrom trialsString turns (groupNameEnd + 1)
              (entries ++
                [{ trialName := substr trialsString nextItem (nameEnd - nextItem)
                   groupName := substr trialsString (nameEnd + 1) (groupNameEnd - nameEnd - 1)
                   activated }])
    else (entries, true)

/-- `ParseFieldTrialsString`: the entries up to a mistake, and whether there was none. -/
def parseFieldTrialsString (trialsString : Text) : List State × Bool :=
  parseFrom trialsString trialsString.length 0 []

/-! ### The list -/

inductive FieldTrialActivationMode where
  | DONT_ACTIVATE_TRIALS
  | ACTIVATE_TRIALS
  deriving DecidableEq, Repr

/-- Every trial stands under its own name. `notified` records what observers were told. -/
structure FieldTrialList where
  registered : OrderedMap Text FieldTrial
  notified : List ActiveGroup
  named : ∀ entry ∈ registered.entries, entry.2.trialName = entry.1 ∧ entry.2.trialRegistered = true

namespace FieldTrialList

def empty : FieldTrialList := ⟨.empty, [], fun _ member => absurd member List.not_mem_nil⟩

def find (list : FieldTrialList) (name : Text) : Option FieldTrial := list.registered.find name

def isTrialActive (list : FieldTrialList) (name : Text) : Bool :=
  match list.find name with
  | some trial => trial.getActiveGroup.isSome
  | none => false

/-- What becomes of a trial that is in the list, or new there. -/
def put (list : FieldTrialList) (trial : FieldTrial) (registered : trial.trialRegistered = true) : FieldTrialList where
  registered := list.registered.update trial.trialName fun _ => trial
  notified := list.notified
  named := by
    intro entry member
    rcases OrderedMap.mem_update member with ⟨-, rfl⟩ | old
    · exact ⟨rfl, registered⟩
    · exact list.named entry old

/-- `AllStatesToString`: a trial is finalized when its state is read. -/
def allStatesToString (list : FieldTrialList) : FieldTrialList × Text :=
  ({ registered := list.registered.mapValues fun trial => trial.getState.1
     notified := list.notified
     named := by
      intro entry member
      obtain ⟨old, listed, rfl⟩ := List.mem_map.mp member
      rw [getState_trialName, getState_trialRegistered]
      exact list.named old listed },
    list.registered.entries.flatMap fun entry =>
      match entry.2.getState.2 with
      | none => []
      | some state => state.render)

/-- `FieldTrial::group`, with `NotifyFieldTrialGroupSelection`. -/
def group (list : FieldTrialList) (trial : FieldTrial) : FieldTrialList :=
  if registered : trial.finalizeGroupChoice.trialRegistered = true then
    if trial.groupReported then list.put trial.finalizeGroupChoice registered
    else
      let reported := list.put { trial.finalizeGroupChoice with groupReported := true } registered
      if !trial.enableFieldTrial then reported
      else { reported with notified := reported.notified ++ [⟨trial.trialName, trial.finalizeGroupChoice.groupName⟩] }
  else list

/-- `CreateFieldTrial`. -/
def createFieldTrial (list : FieldTrialList) (name groupName : Text) : FieldTrialList × Option FieldTrial :=
  if name.isEmpty || groupName.isEmpty then (list, none)
  else
    match list.find name with
    | some fieldTrial => if fieldTrial.groupName ≠ groupName then (list, none) else (list, some fieldTrial)
    | none => (list.put (createForced name groupName) (createForced_trialRegistered name groupName),
        some (createForced name groupName))

/-- The loop of `CreateTrialsFromString`. -/
def createTrials (mode : FieldTrialActivationMode) (ignored : List Text) :
    FieldTrialList → List State → FieldTrialList × Bool
  | list, [] => (list, true)
  | list, entry :: rest =>
    if entry.trialName ∈ ignored then createTrials mode ignored list rest
    else
      match list.createFieldTrial entry.trialName entry.groupName with
      | (list, none) => (list, false)
      | (list, some trial) =>
        createTrials mode ignored
          (if mode = .ACTIVATE_TRIALS ∨ entry.activated then list.group trial else list) rest

def createTrialsFromString (list : FieldTrialList) (trialsString : Text) (mode : FieldTrialActivationMode)
    (ignoredTrialNames : List Text) : FieldTrialList × Bool :=
  if trialsString.isEmpty then (list, true)
  else
    match parseFieldTrialsString trialsString with
    | (_, false) => (list, false)
    | (entries, true) => createTrials mode ignoredTrialNames list entries

end FieldTrialList

/-! `ParseFieldTrialsString`: what it makes of a string that was written, and of any string. -/

/-! ### Reading what was written -/

theorem findFrom_append (front word rest : Text) {character : Fin 256} (absent : character ∉ word) :
    findFrom (front ++ (word ++ character :: rest)) character front.length = some (front.length + word.length) := by
  have passed : word.findIdx? (· == character) = none :=
    List.findIdx?_eq_none_iff.mpr fun other member => beq_eq_false_iff_ne.mpr fun same => absent (same ▸ member)
  have found : (word ++ character :: rest).findIdx? (· == character) = some word.length := by
    rw [List.findIdx?_append, passed, List.findIdx?_cons, if_pos (beq_self_eq_true character), Option.map_some,
      Option.none_or, Nat.zero_add]
  rw [findFrom, List.drop_left, found]
  rfl

theorem substr_append (front word rest : Text) : substr (front ++ (word ++ rest)) front.length word.length = word := by
  rw [substr, List.drop_left, List.take_left]

theorem substr_head (text : Text) (position count : Nat) :
    (substr text position count).head? = if count = 0 then none else text[position]? := by
  rw [substr, List.head?_take, List.head?_drop]

/-- A name or a group as the string can hold it. -/
structure Plain (text : Text) : Prop where
  nonempty : text ≠ []
  undivided : kPersistentStringSeparator ∉ text

/-- An entry `[*]name/group`. -/
def FieldTrial.State.entry (state : State) : Text :=
  (if state.activated then [kActivationMarker] else []) ++ state.trialName ++ [kPersistentStringSeparator] ++
    state.groupName

theorem FieldTrial.State.render_eq (state : State) : state.render = state.entry ++ [kPersistentStringSeparator] := rfl

/-- The state that a name as it is written stands for. -/
def stateOf (lead group : Text) : State :=
  if lead.head? = some kActivationMarker then ⟨lead.tail, group, true⟩ else ⟨lead, group, false⟩

theorem stateOf_groupName (lead group : Text) : (stateOf lead group).groupName = group := by
  unfold stateOf
  split <;> rfl

theorem stateOf_entry (lead group : Text) :
    (stateOf lead group).entry = lead ++ [kPersistentStringSeparator] ++ group := by
  unfold stateOf
  split
  next marked =>
    obtain ⟨tail, rfl⟩ := List.head?_eq_some_iff.mp marked
    simp [State.entry]
  next => simp [State.entry]

theorem findFrom_none {text : Text} {character : Fin 256} {position : Nat}
    (absent : character ∉ text.drop position) : findFrom text character position = none := by
  have passed : (text.drop position).findIdx? (· == character) = none :=
    List.findIdx?_eq_none_iff.mpr fun other member => beq_eq_false_iff_ne.mpr fun same => absent (same ▸ member)
  rw [findFrom, passed]
  rfl

/-- A turn over a name as it is written and over a group, which ends where `groupEnd` says. -/
theorem parseFrom_group (front behind : Text) {lead group text : Text} (first : Plain lead)
    (whole : text = front ++ (lead ++ kPersistentStringSeparator :: (group ++ behind))) {groupEnd : Option Nat}
    (found : findFrom text kPersistentStringSeparator (front.length + lead.length + 1) = groupEnd)
    (ends : groupEnd.getD text.length = front.length + lead.length + 1 + group.length)
    (nonempty : groupEnd ≠ some (front.length + lead.length + 1)) (turns : Nat) (entries : List State) :
    parseFrom text (turns + 1) front.length entries =
      if lead = [kActivationMarker] then (entries, false)
      else parseFrom text turns (front.length + lead.length + 1 + group.length + 1)
        (entries ++ [stateOf lead group]) := by
  have leadLength := List.length_pos_iff.mpr first.nonempty
  have byGroup : text = (front ++ (lead ++ [kPersistentStringSeparator])) ++ (group ++ behind) := by
    rw [whole]
    simp only [List.append_assoc, List.cons_append, List.nil_append]
  have groupStart : (front ++ (lead ++ [kPersistentStringSeparator])).length = front.length + lead.length + 1 := by
    simp only [List.length_append, List.length_singleton, Nat.add_assoc]
  have nameEnd : findFrom text kPersistentStringSeparator front.length = some (front.length + lead.length) := by
    rw [whole, findFrom_append front lead _ first.undivided]
  have groupName : substr text (front.length + lead.length + 1) group.length = group := by
    rw [byGroup, ← groupStart, substr_append]
  have inside : front.length < text.length := by
    rw [whole, List.length_append, List.length_append]
    omega
  have marker : text[front.length]? = lead.head? := by
    rw [whole, List.getElem?_append_right (Nat.le_refl _), Nat.sub_self, ← List.head?_eq_getElem?,
      List.head?_append_of_ne_nil _ first.nonempty]
  have goesOn : ¬(front.length = front.length + lead.length ∨ groupEnd = some (front.length + lead.length + 1)) := by
    intro stops
    cases stops with
    | inl same => omega
    | inr same => exact nonempty same
  have groupCount : front.length + lead.length + 1 + group.length - (front.length + lead.length) - 1 =
      group.length := by
    omega
  rw [parseFrom, if_pos inside, nameEnd]
  simp only [found, if_neg goesOn, ends, marker, beq_iff_eq, groupCount, groupName, Nat.add_sub_cancel_left]
  by_cases marked : lead.head? = some kActivationMarker
  · obtain ⟨tail, rfl⟩ := List.head?_eq_some_iff.mp marked
    have name : substr text (front.length + 1) (front.length + (kActivationMarker :: tail).length - (front.length + 1)) =
        tail := by
      have byName : text = (front ++ [kActivationMarker]) ++
          (tail ++ kPersistentStringSeparator :: (group ++ behind)) := by
        rw [whole]
        simp only [List.append_assoc, List.cons_append, List.nil_append]
      have nameStart : (front ++ [kActivationMarker]).length = front.length + 1 := List.length_append
      have count : front.length + (kActivationMarker :: tail).length - (front.length + 1) = tail.length := by
        rw [List.length_cons]
        omega
      rw [count, byName, ← nameStart, substr_append]
    have one : (kActivationMarker :: tail).length = 1 ↔ kActivationMarker :: tail = [kActivationMarker] := by simp
    simp only [marked, beq_self_eq_true, true_and, if_true, name, one, stateOf, List.tail_cons]
  · have name : substr text front.length lead.length = lead := by rw [whole, substr_append]
    have unmarked : (lead.head? == some kActivationMarker) = false := beq_eq_false_iff_ne.mpr marked
    have differs : lead ≠ [kActivationMarker] := fun same => marked (congrArg List.head? same)
    simp only [marked, unmarked, false_and, if_false, Nat.add_sub_cancel_left, name, stateOf, differs]

theorem parseFrom_last (front : Text) {lead group text : Text} (first : Plain lead)
    (undivided : kPersistentStringSeparator ∉ group)
    (whole : text = front ++ (lead ++ kPersistentStringSeparator :: group)) (turns : Nat) (entries : List State) :
    parseFrom text (turns + 1) front.length entries =
      if lead = [kActivationMarker] then (entries, false) else (entries ++ [stateOf lead group], true) := by
  have done (entries : List State) : parseFrom text turns (text.length + 1) entries = (entries, true) := by
    cases turns with
    | zero => rfl
    | succ turns => exact if_neg (Nat.not_lt.mpr (Nat.le_succ _))
  have length : text.length = front.length + lead.length + 1 + group.length := by
    rw [whole, List.length_append, List.length_append, List.length_cons]
    omega
  have groupEnd : findFrom text kPersistentStringSeparator (front.length + lead.length + 1) = none := by
    apply findFrom_none
    have split : text = (front ++ (lead ++ [kPersistentStringSeparator])) ++ group := by simp [whole]
    have start : (front ++ (lead ++ [kPersistentStringSeparator])).length = front.length + lead.length + 1 := by
      simp only [List.length_append, List.length_singleton, Nat.add_assoc]
    rwa [split, ← start, List.drop_left]
  rw [← List.append_nil group] at whole
  rw [parseFrom_group front [] first whole groupEnd length nofun, ← length, done]

theorem parseFrom_stateOf (front rest : Text) {lead group text : Text} (first : Plain lead) (second : Plain group)
    (whole : text = front ++ (lead ++ kPersistentStringSeparator :: (group ++ kPersistentStringSeparator :: rest)))
    (turns : Nat) (entries : List State) :
    parseFrom text (turns + 1) front.length entries =
      if lead = [kActivationMarker] then (entries, false)
      else parseFrom text turns (front ++ (stateOf lead group).render).length (entries ++ [stateOf lead group]) := by
  have groupLength := List.length_pos_iff.mpr second.nonempty
  have length : (front ++ (stateOf lead group).render).length = front.length + lead.length + 1 + group.length + 1 := by
    simp only [State.render_eq, stateOf_entry, List.length_append, List.length_singleton]
    omega
  have groupEnd := findFrom_append (front ++ (lead ++ [kPersistentStringSeparator])) group rest second.undivided
  have start : (front ++ (lead ++ [kPersistentStringSeparator])).length = front.length + lead.length + 1 := by
    simp only [List.length_append, List.length_singleton, Nat.add_assoc]
  have split : text = (front ++ (lead ++ [kPersistentStringSeparator])) ++
      (group ++ kPersistentStringSeparator :: rest) := by
    simp [whole]
  rw [start, ← split] at groupEnd
  rw [length]
  refine parseFrom_group front _ first whole groupEnd rfl ?_ turns entries
  rw [ne_eq, Option.some.injEq]
  omega

/-- A state whose marker is not taken for another. -/
structure FieldTrial.State.Clear (state : State) : Prop where
  name : Plain state.trialName
  group : Plain state.groupName
  marked : state.activated = false → state.trialName.head? ≠ some kActivationMarker

/-- The written name of a state. -/
theorem FieldTrial.State.Clear.exists_lead {state : State} (clear : state.Clear) :
    ∃ lead, Plain lead ∧ lead ≠ [kActivationMarker] ∧ state = stateOf lead state.groupName := by
  obtain ⟨name, group, activated⟩ := state
  cases activated with
  | false =>
    have unmarked := clear.marked rfl
    refine ⟨name, clear.name, ?_, (if_neg unmarked).symm⟩
    intro same
    exact unmarked (congrArg List.head? same)
  | true =>
    refine ⟨kActivationMarker :: name, ⟨List.cons_ne_nil _ _, ?_⟩, ?_, (if_pos List.head?_cons).symm⟩
    · intro member
      cases List.mem_cons.mp member with
      | inl same => exact absurd same (by decide)
      | inr inName => exact clear.name.undivided inName
    · intro same
      exact clear.name.nonempty (List.cons.inj same).2

/-- One turn takes what was written of one trial. -/
theorem FieldTrial.State.Clear.turn {state : State} (clear : state.Clear) (front rest : Text) (turns : Nat)
    (entries : List State) :
    parseFrom (front ++ (state.render ++ rest)) (turns + 1) front.length entries =
      parseFrom (front ++ (state.render ++ rest)) turns (front ++ state.render).length (entries ++ [state]) := by
  obtain ⟨lead, first, named, same⟩ := clear.exists_lead
  have whole : front ++ (state.render ++ rest) =
      front ++ (lead ++ kPersistentStringSeparator :: (state.groupName ++ kPersistentStringSeparator :: rest)) := by
    rw [state.render_eq, congrArg State.entry same, stateOf_entry]
    simp only [List.append_assoc, List.cons_append, List.nil_append]
  rw [parseFrom_stateOf front rest first clear.group whole, if_neg named, ← same]

theorem length_le_render (states : List State) : states.length ≤ (states.flatMap State.render).length := by
  induction states with
  | nil => exact Nat.le_refl 0
  | cons state rest ih =>
    rw [List.flatMap_cons, List.length_append, List.length_cons, State.render, List.length_append, List.length_singleton]
    omega

theorem parseFrom_prefix (states : List State) (clear : ∀ state ∈ states, state.Clear) (front rest : Text)
    (turns : Nat) (entries : List State) :
    parseFrom (front ++ (states.flatMap State.render ++ rest)) (turns + states.length) front.length entries =
      parseFrom (front ++ (states.flatMap State.render ++ rest)) turns (front ++ states.flatMap State.render).length
        (entries ++ states) := by
  induction states generalizing front entries with
  | nil => simp
  | cons state states ih =>
    have turn := (clear state List.mem_cons_self).turn front (states.flatMap State.render ++ rest)
      (turns + states.length) entries
    have later := ih (fun other member => clear other (List.mem_cons_of_mem state member)) (front ++ state.render)
      (entries ++ [state])
    rw [List.flatMap_cons]
    rw [List.append_assoc, List.append_assoc, List.append_assoc, List.singleton_append] at later
    rw [List.append_assoc, ← later]
    exact turn

theorem parseFrom_render (states : List State) (clear : ∀ state ∈ states, state.Clear) (front : Text) {turns : Nat}
    (enough : states.length ≤ turns) (entries : List State) :
    parseFrom (front ++ states.flatMap State.render) turns front.length entries = (entries ++ states, true) := by
  obtain ⟨turns, rfl⟩ := Nat.exists_eq_add_of_le' enough
  have passed := parseFrom_prefix states clear front [] turns entries
  rw [List.append_nil] at passed
  rw [passed]
  cases turns with
  | zero => rfl
  | succ turns => exact if_neg (Nat.lt_irrefl _)

/-! ### What reading can produce -/

/-- An entry that was read is marked, or its name has no marker in front. -/
def Marked (state : State) : Prop := state.activated = true ∨ state.trialName.head? ≠ some kActivationMarker

theorem parseFrom_marked (trialsString : Text) (turns nextItem : Nat) {entries : List State}
    (marked : ∀ state ∈ entries, Marked state) :
    ∀ state ∈ (parseFrom trialsString turns nextItem entries).1, Marked state := by
  induction turns generalizing nextItem entries with
  | zero => exact marked
  | succ turns ih =>
    unfold parseFrom
    split
    next inside =>
      split
      next => exact marked
      next nameEnd found =>
        dsimp only
        split
        next => exact marked
        next =>
          split
          next => exact marked
          next =>
            apply ih
            intro state member
            cases List.mem_append.mp member with
            | inl old => exact marked state old
            | inr new =>
              rw [List.mem_singleton.mp new]
              by_cases activated : (trialsString[nextItem]? == some kActivationMarker) = true
              · exact .inl activated
              · right
                rw [if_neg activated]
                intro first
                rw [substr_head] at first
                split at first
                next => cases first
                next => exact activated (beq_iff_eq.mpr first)
    next => exact marked

end Libchrome.Base.Metrics
