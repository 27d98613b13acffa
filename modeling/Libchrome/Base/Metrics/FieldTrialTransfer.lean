import Libchrome.Base.Metrics.FieldTrial

/-! What a second process makes of the states that a first one wrote. -/

namespace Libchrome.Base.Metrics
open FieldTrial Library

/-! ### Creating what was read -/

/-- The trial that a state makes in a list without it. -/
def FieldTrial.State.created (state : State) : FieldTrial :=
  { createForced state.trialName state.groupName with groupReported := state.activated }

theorem createForced_eq (name : Text) {groupName : Text} (nonempty : groupName ≠ []) :
    createForced name groupName =
      { FieldTrial.new name 100 groupName 0 with
        accumulatedGroupProbability := 100
        group := kDefaultGroupNumber
        groupName := groupName
        forced := true
        trialRegistered := true } := by
  have named : groupName.isEmpty = false := List.isEmpty_eq_false_iff.mpr nonempty
  simp only [createForced, setForced, setTrialRegistered, finalizeGroupChoice, new, setGroupChoice, named, ne_eq,
    not_true_eq_false, Bool.false_eq_true, if_false]

theorem finalizeGroupChoice_createForced (name : Text) {groupName : Text} (nonempty : groupName ≠ []) :
    (createForced name groupName).finalizeGroupChoice = createForced name groupName := by
  have finalized : kDefaultGroupNumber ≠ kNotFinalized := by decide
  rw [createForced_eq name nonempty]
  exact if_pos finalized

namespace FieldTrialList

@[simp] theorem find_put (list : FieldTrialList) (trial : FieldTrial) (registered : trial.trialRegistered = true)
    (name : Text) :
    (list.put trial registered).find name = if name = trial.trialName then some trial else list.find name := by
  have found : (list.put trial registered).find name = _ :=
    OrderedMap.find_update list.registered trial.trialName name fun _ => trial
  by_cases same : name = trial.trialName
  · rw [found, if_pos same, if_pos same]
  · rw [found, if_neg same, if_neg same]
    rfl

variable {trial : FieldTrial}

/-- `group` marks its trial, and touches no other. -/
theorem find_group (list : FieldTrialList) (registered : trial.trialRegistered = true) (name : Text) :
    (list.group trial).find name =
      if name = trial.trialName then some { trial.finalizeGroupChoice with groupReported := true }
      else list.find name := by
  have registered' : trial.finalizeGroupChoice.trialRegistered = true := by
    rw [finalizeGroupChoice_trialRegistered, registered]
  have name' := trial.finalizeGroupChoice_trialName
  rw [group, dif_pos registered']
  cases reported : trial.groupReported with
  | true =>
    have same : { trial.finalizeGroupChoice with groupReported := true } = trial.finalizeGroupChoice := by
      rw [← reported, ← finalizeGroupChoice_groupReported]
    rw [if_pos rfl, find_put, name', same]
  | false =>
    have found := find_put list { trial.finalizeGroupChoice with groupReported := true } registered' name
    rw [name'] at found
    rw [if_neg Bool.false_ne_true]
    dsimp only
    split
    · exact found
    · exact found

variable {list : FieldTrialList} {state : State}

theorem createTrials_turn (clear : state.Clear) (absent : list.find state.trialName = none) (rest : List State) :
    ∃ next : FieldTrialList,
      createTrials .DONT_ACTIVATE_TRIALS [] list (state :: rest) = createTrials .DONT_ACTIVATE_TRIALS [] next rest ∧
      ∀ name, next.find name = if name = state.trialName then some state.created else list.find name := by
  have forced := createForced_eq state.trialName clear.group.nonempty
  have registered := createForced_trialRegistered state.trialName state.groupName
  have name' : (createForced state.trialName state.groupName).trialName = state.trialName := by rw [forced]; rfl
  have nonempty : (state.trialName.isEmpty || state.groupName.isEmpty) = false := by
    rw [List.isEmpty_eq_false_iff.mpr clear.name.nonempty, List.isEmpty_eq_false_iff.mpr clear.group.nonempty]
    rfl
  have createdTrial : list.createFieldTrial state.trialName state.groupName =
      (list.put (createForced state.trialName state.groupName) registered,
        some (createForced state.trialName state.groupName)) := by
    rw [createFieldTrial, nonempty, absent]
    rfl
  rw [createTrials, if_neg List.not_mem_nil, createdTrial]
  refine ⟨_, rfl, fun name => ?_⟩
  cases activated : state.activated with
  | false =>
    have unmarked : state.created = createForced state.trialName state.groupName := by
      rw [State.created, activated, forced]
      rfl
    rw [if_neg (by simp only [reduceCtorEq, or_self, not_false_eq_true, Bool.false_eq_true]), find_put, name', unmarked]
  | true =>
    rw [if_pos (.inr rfl), find_group _ registered, find_put, name', State.created, activated,
      finalizeGroupChoice_createForced state.trialName clear.group.nonempty]
    split <;> rfl

theorem createTrials_find (states : List State) (clear : ∀ state ∈ states, state.Clear)
    (distinct : (states.map State.trialName).Nodup) (absent : ∀ state ∈ states, list.find state.trialName = none) :
    ∃ created : FieldTrialList, createTrials .DONT_ACTIVATE_TRIALS [] list states = (created, true) ∧
      (∀ state ∈ states, created.find state.trialName = some state.created) ∧
      ∀ name, name ∉ states.map State.trialName → created.find name = list.find name := by
  induction states generalizing list with
  | nil => exact ⟨list, rfl, fun _ member => absurd member List.not_mem_nil, fun _ _ => rfl⟩
  | cons state rest ih =>
    obtain ⟨fresh, distinct⟩ := List.nodup_cons.mp distinct
    obtain ⟨next, turned, found⟩ := createTrials_turn (clear state List.mem_cons_self) (absent state List.mem_cons_self) rest
    have others : ∀ other ∈ rest, next.find other.trialName = none := by
      intro other member
      have different : other.trialName ≠ state.trialName :=
        fun same => fresh (same ▸ List.mem_map_of_mem (f := State.trialName) member)
      rw [found, if_neg different]
      exact absent other (List.mem_cons_of_mem state member)
    obtain ⟨created, ran, all, elsewhere⟩ := ih (fun other member => clear other (List.mem_cons_of_mem state member))
      distinct others
    refine ⟨created, turned.trans ran, fun other member => ?_, fun name away => ?_⟩
    · cases List.mem_cons.mp member with
      | inl same => rw [same, elsewhere _ fresh, found, if_pos rfl]
      | inr later => exact all other later
    · rw [List.map_cons, List.mem_cons, not_or] at away
      obtain ⟨different, away⟩ := away
      rw [elsewhere name away, found, if_neg different]

/-- The trials that a string made: a marker in front of a name means that the trial is active. -/
def OnlyMarked (list : FieldTrialList) : Prop :=
  ∀ name trial, list.find name = some trial →
    trial.enableFieldTrial = true ∧ (trial.groupReported = true ∨ name.head? ≠ some kActivationMarker)

variable {name : Text}

/-- A trial of the list stands under its name. -/
theorem named_of_find (found : list.find name = some trial) : trial.trialName = name ∧ trial.trialRegistered = true :=
  list.named (name, trial) ((OrderedMap.find_eq_some_iff list.registered).mp found)

theorem createFieldTrial_cases {next : FieldTrialList} {groupName : Text}
    (made : list.createFieldTrial name groupName = (next, some trial)) :
    (next = list ∧ list.find name = some trial) ∨
    (trial = createForced name groupName ∧
      ∀ other, next.find other = if other = name then some trial else list.find other) := by
  unfold createFieldTrial at made
  split at made
  next => cases made
  next =>
    split at made
    next existing found =>
      split at made
      next => cases made
      next =>
        cases made
        exact .inl ⟨rfl, found⟩
    next =>
      cases made
      have named : (createForced name groupName).trialName = name := finalizeGroupChoice_trialName _
      exact .inr ⟨rfl, fun other => by rw [find_put, named]⟩

theorem onlyMarked_turn {next : FieldTrialList} (only : list.OnlyMarked) (marked : Marked state)
    (made : list.createFieldTrial state.trialName state.groupName = (next, some trial)) :
    (if FieldTrialActivationMode.DONT_ACTIVATE_TRIALS = .ACTIVATE_TRIALS ∨ state.activated = true then next.group trial
      else next).OnlyMarked := by
  intro name found seen
  have kept : trial.trialName = state.trialName ∧ trial.trialRegistered = true ∧ trial.enableFieldTrial = true ∧
      next.find state.trialName = some trial ∧
      ∀ other, other ≠ state.trialName → next.find other = list.find other := by
    rcases createFieldTrial_cases made with ⟨rfl, there⟩ | ⟨rfl, here⟩
    · exact ⟨(named_of_find there).1, (named_of_find there).2, (only _ _ there).1, there, fun _ _ => rfl⟩
    · exact ⟨finalizeGroupChoice_trialName _, createForced_trialRegistered _ _, finalizeGroupChoice_enableFieldTrial _,
        (here state.trialName).trans (if_pos rfl), fun other apart => (here other).trans (if_neg apart)⟩
  obtain ⟨named, registered, enabled, there, elsewhere⟩ := kept
  by_cases same : name = state.trialName
  · subst same
    split at seen
    next =>
      rw [find_group next registered, if_pos named.symm] at seen
      cases seen
      exact ⟨(finalizeGroupChoice_enableFieldTrial trial).trans enabled, .inl rfl⟩
    next unmarked =>
      rw [there] at seen
      cases seen
      exact ⟨enabled, .inr (marked.resolve_left fun activated => unmarked (.inr activated))⟩
  · split at seen
    next =>
      rw [find_group next registered, named, if_neg same, elsewhere name same] at seen
      exact only name found seen
    next =>
      rw [elsewhere name same] at seen
      exact only name found seen

theorem createTrials_onlyMarked {entries : List State} (marked : ∀ state ∈ entries, Marked state)
    (only : list.OnlyMarked) : (createTrials .DONT_ACTIVATE_TRIALS [] list entries).1.OnlyMarked := by
  induction entries generalizing list with
  | nil => exact only
  | cons state rest ih =>
    have later := fun other member => marked other (List.mem_cons_of_mem state member)
    have first := marked state List.mem_cons_self
    rw [createTrials, if_neg List.not_mem_nil]
    split
    next next' made =>
      have same : next' = list := by
        unfold createFieldTrial at made
        split at made
        next => exact (Prod.mk.inj made).1.symm
        next =>
          split at made
          next =>
            split at made
            next => exact (Prod.mk.inj made).1.symm
            next => cases made
          next => cases made
      rw [same]
      exact only
    next next' trial made => exact ih later (onlyMarked_turn only first made)

/-! ### The transfer -/

/-- The states of the enabled trials. -/
def states (list : FieldTrialList) : List State := list.registered.entries.filterMap fun entry => entry.2.getState.2

theorem allStatesToString_eq (list : FieldTrialList) : list.allStatesToString.2 = list.states.flatMap State.render := by
  simp only [allStatesToString, states]
  induction list.registered.entries with
  | nil => rfl
  | cons entry rest ih =>
    cases read : entry.2.getState.2 with
    | none => simp only [List.flatMap_cons, List.filterMap_cons, read, ih, List.nil_append]
    | some state => simp only [List.flatMap_cons, List.filterMap_cons, read, ih]

theorem getState_eq_some :
    trial.getState.2 = some state ↔ trial.enableFieldTrial = true ∧
      state = ⟨trial.trialName, trial.finalizeGroupChoice.groupName, trial.groupReported⟩ := by
  cases enabled : trial.enableFieldTrial with
  | false => simp only [getState, enabled, Bool.not_false, if_true, reduceCtorEq, Bool.false_eq_true, false_and]
  | true =>
    simp only [getState, enabled, Bool.not_true, Bool.false_eq_true, if_false, Option.some.injEq, true_and,
      finalizeGroupChoice_trialName, finalizeGroupChoice_groupReported]
    exact eq_comm

theorem mem_states :
    state ∈ list.states ↔ ∃ trial, list.find state.trialName = some trial ∧ trial.getState.2 = some state := by
  rw [states, List.mem_filterMap]
  constructor
  · rintro ⟨entry, listed, read⟩
    have named := (list.named entry listed).1
    have name : state.trialName = entry.1 := by rw [(getState_eq_some.mp read).2, named]
    exact ⟨entry.2, by rw [name]; exact (OrderedMap.find_eq_some_iff list.registered).mpr listed, read⟩
  · rintro ⟨trial, found, read⟩
    exact ⟨(state.trialName, trial), (OrderedMap.find_eq_some_iff list.registered).mp found, read⟩

theorem states_distinct (list : FieldTrialList) : (list.states.map State.trialName).Nodup := by
  rw [states, List.Nodup, List.pairwise_map, List.pairwise_filterMap]
  refine list.registered.sorted.imp_of_mem fun {former latter} first second below state read other also => ?_
  rw [(getState_eq_some.mp read).2, (getState_eq_some.mp also).2, (list.named former first).1, (list.named latter second).1]
  exact below.ne

/-- The names and groups of the enabled trials can be written. -/
def Writable (list : FieldTrialList) : Prop :=
  ∀ name trial, list.find name = some trial → trial.enableFieldTrial = true →
    Plain name ∧ Plain trial.finalizeGroupChoice.groupName

/-- The string that is written makes, in a process without trials, the enabled trials and no others, in the same
groups and as active as they are. -/
def Transfers (list : FieldTrialList) : Prop :=
  ∃ created, empty.createTrialsFromString list.allStatesToString.2 .DONT_ACTIVATE_TRIALS [] = (created, true) ∧
    (∀ name, (created.find name).isSome ↔
      ∃ trial, list.allStatesToString.1.find name = some trial ∧ trial.enableFieldTrial = true) ∧
    (∀ name trial copy, list.allStatesToString.1.find name = some trial → created.find name = some copy →
      copy.groupName = trial.groupName) ∧
    ∀ name, created.isTrialActive name = list.allStatesToString.1.isTrialActive name

theorem find_allStatesToString (list : FieldTrialList) (name : Text) :
    list.allStatesToString.1.find name = (list.find name).map fun trial => trial.getState.1 :=
  OrderedMap.find_mapValues _ _ _

theorem createTrialsFromString_states (clear : ∀ state ∈ list.states, state.Clear) :
    ∃ created : FieldTrialList,
      empty.createTrialsFromString list.allStatesToString.2 .DONT_ACTIVATE_TRIALS [] = (created, true) ∧
      (∀ state ∈ list.states, created.find state.trialName = some state.created) ∧
      ∀ name, name ∉ list.states.map State.trialName → created.find name = none := by
  have unknown (name : Text) : empty.find name = none := rfl
  obtain ⟨created, ran, all, elsewhere⟩ := createTrials_find list.states clear list.states_distinct
    (fun state _ => unknown state.trialName)
  refine ⟨created, ?_, all, fun name away => (elsewhere name away).trans (unknown name)⟩
  rw [allStatesToString_eq, createTrialsFromString]
  split
  next nothing =>
    have noStates : list.states = [] := by
      cases states : list.states with
      | nil => rfl
      | cons state rest =>
        rw [states, List.flatMap_cons, List.isEmpty_iff, List.append_eq_nil_iff] at nothing
        have written := nothing.1
        rw [State.render] at written
        exact absurd (List.append_eq_nil_iff.mp written).2 (List.cons_ne_nil _ _)
    rw [noStates] at ran
    exact ran
  next =>
    have read : parseFieldTrialsString (list.states.flatMap State.render) = (list.states, true) :=
      parseFrom_render list.states clear [] (length_le_render list.states) []
    rw [read]
    exact ran

theorem getActiveGroup_isSome (trial : FieldTrial) :
    trial.getActiveGroup.isSome = (trial.groupReported && trial.enableFieldTrial) := by
  unfold getActiveGroup
  cases trial.groupReported <;> cases trial.enableFieldTrial <;> rfl

theorem isTrialActive_of_find (found : list.find name = some trial) :
    list.isTrialActive name = (trial.groupReported && trial.enableFieldTrial) := by
  rw [isTrialActive, found]
  exact getActiveGroup_isSome trial

/-- An enabled trial is finalized when its state is read, and else left as it is. -/
theorem getState_enabled (enabled : trial.enableFieldTrial = true) :
    trial.getState.1 = trial.finalizeGroupChoice := by
  rw [getState, enabled]
  rfl

theorem getState_disabled (disabled : trial.enableFieldTrial = false) : trial.getState.1 = trial := by
  rw [getState, disabled]
  rfl

theorem getState_enableFieldTrial (trial : FieldTrial) : trial.getState.1.enableFieldTrial = trial.enableFieldTrial := by
  cases enabled : trial.enableFieldTrial with
  | false => rw [getState_disabled enabled, enabled]
  | true => rw [getState_enabled enabled, finalizeGroupChoice_enableFieldTrial, enabled]

theorem transfers_of_unmarked (writable : list.Writable)
    (unmarked : ∀ name trial, list.find name = some trial → trial.enableFieldTrial = true →
      trial.groupReported = false → name.head? ≠ some kActivationMarker) : list.Transfers := by
  have clear : ∀ state ∈ list.states, state.Clear := by
    intro state member
    obtain ⟨trial, found, read⟩ := mem_states.mp member
    obtain ⟨enabled, same⟩ := getState_eq_some.mp read
    obtain ⟨name, group⟩ := writable _ trial found enabled
    have groupName : state.groupName = trial.finalizeGroupChoice.groupName := by rw [same]
    have activated : state.activated = trial.groupReported := by rw [same]
    exact ⟨name, by rw [groupName]; exact group, fun inactive => unmarked _ trial found enabled (activated ▸ inactive)⟩
  obtain ⟨created, ran, all, elsewhere⟩ := createTrialsFromString_states clear
  -- what the second process has under the name of an enabled trial
  have copied : ∀ name trial, list.find name = some trial → trial.enableFieldTrial = true →
      created.find name = some (State.created ⟨name, trial.finalizeGroupChoice.groupName, trial.groupReported⟩) := by
    intro name trial found enabled
    have named := (named_of_find found).1
    subst named
    exact all _ (mem_states.mpr ⟨trial, found, getState_eq_some.mpr ⟨enabled, rfl⟩⟩)
  have missing : ∀ name, (∀ trial, list.find name = some trial → trial.enableFieldTrial = false) →
      created.find name = none := by
    intro name disabled
    apply elsewhere
    intro member
    obtain ⟨state, listed, rfl⟩ := List.mem_map.mp member
    obtain ⟨trial, found, read⟩ := mem_states.mp listed
    exact Bool.false_ne_true ((disabled trial found).symm.trans (getState_eq_some.mp read).1)
  have parent : ∀ name, list.allStatesToString.1.find name = (list.find name).map fun trial => trial.getState.1 :=
    find_allStatesToString list
  refine ⟨created, ran, fun name => ?_, fun name trial copy there seen => ?_, fun name => ?_⟩
  · rw [parent]
    cases found : list.find name with
    | none =>
      rw [missing name fun trial same => absurd (found.symm.trans same) (Option.some_ne_none trial).symm]
      simp only [Option.isSome_none, Bool.false_eq_true, Option.map_none, reduceCtorEq, false_and, exists_false]
    | some trial =>
      simp only [Option.map_some, Option.some.injEq, exists_eq_left', getState_enableFieldTrial]
      cases enabled : trial.enableFieldTrial with
      | true => simp only [copied name trial found enabled, Option.isSome_some]
      | false =>
        rw [missing name fun other same => Option.some.inj (found.symm.trans same) ▸ enabled]
        rfl
  · rw [parent] at there
    obtain ⟨before, found, rfl⟩ := Option.map_eq_some_iff.mp there
    cases enabled : before.enableFieldTrial with
    | true =>
      rw [copied name before found enabled] at seen
      cases seen
      rw [getState_enabled enabled]
      show (createForced name before.finalizeGroupChoice.groupName).groupName = before.finalizeGroupChoice.groupName
      rw [createForced_eq name (writable name before found enabled).2.nonempty]
    | false =>
      rw [missing name fun other same => Option.some.inj (found.symm.trans same) ▸ enabled] at seen
      cases seen
  · cases found : list.find name with
    | none =>
      have gone := missing name fun trial same => absurd (found.symm.trans same) (Option.some_ne_none trial).symm
      have gone' : list.allStatesToString.1.find name = none := by rw [parent, found, Option.map_none]
      rw [isTrialActive, isTrialActive, gone, gone']
    | some trial =>
      have there : list.allStatesToString.1.find name = some trial.getState.1 := by rw [parent, found, Option.map_some]
      rw [isTrialActive_of_find there, getState_enableFieldTrial]
      cases enabled : trial.enableFieldTrial with
      | true =>
        have running : (State.created ⟨name, trial.finalizeGroupChoice.groupName, trial.groupReported⟩).enableFieldTrial =
            true := finalizeGroupChoice_enableFieldTrial _
        rw [isTrialActive_of_find (copied name trial found enabled), running, getState_enabled enabled,
          finalizeGroupChoice_groupReported]
        rfl
      | false =>
        rw [isTrialActive, missing name fun other same => Option.some.inj (found.symm.trans same) ▸ enabled,
          Bool.and_false]

theorem createTrialsFromString_onlyMarked (trialsString : Text) :
    (empty.createTrialsFromString trialsString .DONT_ACTIVATE_TRIALS []).1.OnlyMarked := by
  have nothing : empty.OnlyMarked := fun _ _ found => absurd found (Option.some_ne_none _).symm
  have marked := parseFrom_marked trialsString trialsString.length 0
    (fun state member => absurd member List.not_mem_nil : ∀ state ∈ [], Marked state)
  unfold createTrialsFromString
  split
  next => exact nothing
  next =>
    split
    next => exact nothing
    next entries read =>
      have entriesMarked : ∀ state ∈ entries, Marked state := by
        have same : (parseFrom trialsString trialsString.length 0 []).1 = entries := congrArg Prod.fst read
        rw [← same]
        exact marked
      exact createTrials_onlyMarked entriesMarked nothing

theorem unmarked_of_transfers (transfers : list.Transfers) (found : list.find name = some trial)
    (enabled : trial.enableFieldTrial = true) (inactive : trial.groupReported = false) :
    name.head? ≠ some kActivationMarker := by
  obtain ⟨created, ran, present, -, active⟩ := transfers
  have only : created.OnlyMarked := by
    have all := createTrialsFromString_onlyMarked list.allStatesToString.2
    rw [ran] at all
    exact all
  have there : list.allStatesToString.1.find name = some trial.getState.1 := by
    rw [find_allStatesToString, found]
    rfl
  have read := getState_enabled enabled
  obtain ⟨copy, seen⟩ := Option.isSome_iff_exists.mp
    ((present name).mpr ⟨_, there, (getState_enableFieldTrial trial).trans enabled⟩)
  have same := active name
  rw [isTrialActive_of_find seen, isTrialActive_of_find there, read, finalizeGroupChoice_groupReported, inactive,
    Bool.false_and, (only name copy seen).1, Bool.and_true] at same
  exact (only name copy seen).2.resolve_left fun reported => Bool.false_ne_true (same.symm.trans reported)

/-- The state of the trials reaches a second process exactly when no enabled trial that is not active has a name
that begins with the marker. -/
theorem transfers_iff (list : FieldTrialList) (writable : list.Writable) :
    list.Transfers ↔ ∀ name trial, list.find name = some trial → trial.enableFieldTrial = true →
      trial.groupReported = false → name.head? ≠ some kActivationMarker :=
  ⟨fun transfers _ _ => unmarked_of_transfers transfers, transfers_of_unmarked writable⟩

theorem zero_ne_nil : decimal 0 ≠ [] := by decide

/-- A list with one trial, forced and not active. -/
def single (name : Text) : FieldTrialList := (empty.createFieldTrial name (decimal 0)).1

theorem find_single {other : Text} (nonempty : name ≠ []) (found : (single name).find other = some trial) :
    other = name ∧ trial = createForced name (decimal 0) := by
  have named : name.isEmpty = false := List.isEmpty_eq_false_iff.mpr nonempty
  have made : empty.createFieldTrial name (decimal 0) = (single name, some (createForced name (decimal 0))) := by
    rw [single, createFieldTrial, named]
    rfl
  rcases createFieldTrial_cases made with ⟨-, there⟩ | ⟨-, here⟩
  · cases there
  · rw [here] at found
    split at found
    next same => exact ⟨same, (Option.some.inj found).symm⟩
    next => cases found

theorem single_writable (plain : Plain name) : (single name).Writable := by
  intro other trial found _
  obtain ⟨rfl, rfl⟩ := find_single plain.nonempty found
  refine ⟨plain, ?_⟩
  have undivided : kPersistentStringSeparator ∉ decimal 0 := by decide
  rw [finalizeGroupChoice_createForced other zero_ne_nil, createForced_eq other zero_ne_nil]
  exact ⟨zero_ne_nil, undivided⟩

theorem transfers_iff_single : (single (decimal 0)).Transfers := by
  refine (transfers_iff (single (decimal 0)) (single_writable ⟨by decide, by decide⟩)).mpr fun name trial found _ _ => ?_
  rw [(find_single zero_ne_nil found).1]
  decide

/-- A marker and a digit: the digit is read, as the name of an active trial. -/
theorem single_marker_not_transfers :
    (single (kActivationMarker :: decimal 0)).Writable ∧ ¬(single (kActivationMarker :: decimal 0)).Transfers := by
  refine ⟨single_writable ⟨by decide, by decide⟩, fun ⟨created, ran, present, _⟩ => ?_⟩
  have lost : (empty.createTrialsFromString (single (kActivationMarker :: decimal 0)).allStatesToString.2
      .DONT_ACTIVATE_TRIALS []).1.find (kActivationMarker :: decimal 0) = none := by decide +kernel
  have there : (single (kActivationMarker :: decimal 0)).allStatesToString.1.find (kActivationMarker :: decimal 0) =
      some (createForced (kActivationMarker :: decimal 0) (decimal 0)) := by decide +kernel
  rw [ran] at lost
  have found := (present (kActivationMarker :: decimal 0)).mpr ⟨_, there, rfl⟩
  rw [lost] at found
  exact Bool.false_ne_true found

end FieldTrialList
end Libchrome.Base.Metrics
