import Libchrome.Base.Metrics.FieldTrialTransfer
import Mathlib.Data.List.Nodup

/-!
# The group numbers of field trials

Callers compare the numbers that the factory and `AppendGroup` return with the number of the chosen group. A
forced trial may have chosen a group with the name of its default group but another number: then the default
number that the factory gives is not the one of the chosen group.
-/

namespace Libchrome.Base.Metrics

open FieldTrial Library

namespace FieldTrial

/-- `Disable`. -/
def disable (trial : FieldTrial) : FieldTrial :=
  let trial := { trial with enableFieldTrial := false }
  if trial.group ≠ kNotFinalized then
    if trial.groupName ≠ trial.defaultGroupName then
      trial.setGroupChoice trial.defaultGroupName kDefaultGroupNumber
    else trial
  else trial

/-- `AppendGroup`, with `enable_benchmarking_`. -/
def appendGroup (enableBenchmarking : Bool) (trial : FieldTrial) (name : Text) (groupProbability : Int) :
    FieldTrial × Int :=
  if trial.forced then
    if name = trial.groupName then (trial, trial.group)
    else ({ trial with nextGroupNumber := trial.nextGroupNumber + 1 }, trial.nextGroupNumber)
  else
    let groupProbability := if enableBenchmarking || !trial.enableFieldTrial then 0 else groupProbability
    let trial :=
      { trial with accumulatedGroupProbability := trial.accumulatedGroupProbability + groupProbability }
    let trial :=
      if trial.group = kNotFinalized ∧ trial.accumulatedGroupProbability > trial.random then
        trial.setGroupChoice name trial.nextGroupNumber
      else trial
    ({ trial with nextGroupNumber := trial.nextGroupNumber + 1 }, trial.nextGroupNumber)

/-- The trial after `group`. -/
def observe (trial : FieldTrial) : FieldTrial :=
  { trial.finalizeGroupChoice with groupReported := trial.groupReported || trial.trialRegistered }

variable {trial : FieldTrial}

theorem finalizeGroupChoice_of_ne (finalized : trial.group ≠ kNotFinalized) :
    trial.finalizeGroupChoice = trial := if_pos finalized

theorem finalizeGroupChoice_of_eq (open_ : trial.group = kNotFinalized) :
    trial.finalizeGroupChoice =
      { trial with accumulatedGroupProbability := trial.divisor }.setGroupChoice trial.defaultGroupName
        kDefaultGroupNumber := if_neg (not_not.mpr open_)

/-- What no call breaks. -/
structure Sound (trial : FieldTrial) : Prop where
  forced : trial.forced = true → trial.group ≠ kNotFinalized
  group : trial.group = kNotFinalized ∨ 0 ≤ trial.group ∧ trial.group < trial.nextGroupNumber
  next : 1 ≤ trial.nextGroupNumber

/-- A choice of a number that was handed out. -/
theorem Sound.setGroupChoice (sound : trial.Sound) (name : Text) {number : Int}
    (within : 0 ≤ number ∧ number < trial.nextGroupNumber) : (trial.setGroupChoice name number).Sound where
  forced _ same := absurd (show number = -1 from same) (by omega)
  group := .inr within
  next := sound.next

theorem Sound.finalizeGroupChoice (sound : trial.Sound) : trial.finalizeGroupChoice.Sound := by
  have next := sound.next
  by_cases finalized : trial.group ≠ kNotFinalized
  · rwa [finalizeGroupChoice_of_ne finalized]
  · rw [finalizeGroupChoice_of_eq (not_not.mp finalized)]
    have spent : { trial with accumulatedGroupProbability := trial.divisor }.Sound :=
      ⟨sound.forced, sound.group, sound.next⟩
    exact spent.setGroupChoice _ ⟨Int.le_refl 0, show (0 : Int) < _ by dsimp only; omega⟩

theorem finalizeGroupChoice_finalized : trial.finalizeGroupChoice.group ≠ kNotFinalized := by
  unfold FieldTrial.finalizeGroupChoice
  split
  next finalized => exact finalized
  next => exact (by decide : kDefaultGroupNumber ≠ kNotFinalized)

theorem Sound.setForced (sound : trial.Sound) : trial.setForced.Sound := by
  unfold FieldTrial.setForced
  split
  next => exact sound
  next => exact ⟨fun _ => finalizeGroupChoice_finalized, sound.finalizeGroupChoice.group,
      sound.finalizeGroupChoice.next⟩

theorem Sound.disable (sound : trial.Sound) : trial.disable.Sound := by
  have off : { trial with enableFieldTrial := false }.Sound := ⟨sound.forced, sound.group, sound.next⟩
  have next := sound.next
  unfold FieldTrial.disable
  dsimp only
  split
  next =>
    split
    next => exact off.setGroupChoice _ ⟨Int.le_refl 0, show (0 : Int) < _ by dsimp only; omega⟩
    next => exact off
  next => exact off

/-- A forced trial gives its own number for the group that it has. Any other group gets the next number, and
it may be chosen while none is. -/
theorem appendGroup_cases (benchmarking : Bool) (trial : FieldTrial) (name : Text) (probability : Int) :
    (trial.forced = true ∧ name = trial.groupName ∧
      trial.appendGroup benchmarking name probability = (trial, trial.group)) ∨
    (trial.forced = true ∧ name ≠ trial.groupName ∧
      trial.appendGroup benchmarking name probability =
        ({ trial with nextGroupNumber := trial.nextGroupNumber + 1 }, trial.nextGroupNumber)) ∨
    ∃ accumulatedGroupProbability, trial.forced = false ∧
      ((trial.group = kNotFinalized ∧
        trial.appendGroup benchmarking name probability =
          ({ ({ trial with accumulatedGroupProbability }).setGroupChoice name trial.nextGroupNumber with
              nextGroupNumber := trial.nextGroupNumber + 1 }, trial.nextGroupNumber)) ∨
      trial.appendGroup benchmarking name probability =
        ({ trial with accumulatedGroupProbability, nextGroupNumber := trial.nextGroupNumber + 1 },
          trial.nextGroupNumber)) := by
  unfold appendGroup
  by_cases forced : trial.forced = true
  · rw [if_pos forced]
    by_cases same : name = trial.groupName
    · exact .inl ⟨forced, same, if_pos same⟩
    · exact .inr (.inl ⟨forced, same, if_neg same⟩)
  · rw [if_neg forced]
    dsimp only
    generalize trial.accumulatedGroupProbability +
      (if (benchmarking || !trial.enableFieldTrial) = true then 0 else probability) = accumulatedGroupProbability
    refine .inr (.inr ⟨accumulatedGroupProbability, Bool.eq_false_iff.mpr forced, ?_⟩)
    split
    next crossed => exact .inl ⟨crossed.1, rfl⟩
    next => exact .inr rfl

theorem Sound.appendGroup (sound : trial.Sound) (benchmarking : Bool) (name : Text) (probability : Int) :
    (trial.appendGroup benchmarking name probability).1.Sound := by
  have next := sound.next
  have counted (accumulatedGroupProbability : Int) :
      { trial with accumulatedGroupProbability, nextGroupNumber := trial.nextGroupNumber + 1 }.Sound := by
    refine ⟨sound.forced, sound.group.imp id ?_, Int.le_add_one next⟩
    rintro ⟨least, below⟩
    exact ⟨least, Int.lt_add_one_of_le (Int.le_of_lt below)⟩
  rcases trial.appendGroup_cases benchmarking name probability with
    ⟨_, _, same⟩ | ⟨_, _, same⟩ | ⟨accumulatedGroupProbability, _, ⟨_, same⟩ | same⟩
  · rwa [same]
  · rw [same]
    exact counted trial.accumulatedGroupProbability
  · rw [same]
    exact (counted accumulatedGroupProbability).setGroupChoice name
      ⟨Int.le_trans Int.one_nonneg next, Int.lt_succ trial.nextGroupNumber⟩
  · rw [same]
    exact counted accumulatedGroupProbability

theorem Sound.observe (sound : trial.Sound) : trial.observe.Sound :=
  ⟨sound.finalizeGroupChoice.forced, sound.finalizeGroupChoice.group, sound.finalizeGroupChoice.next⟩

theorem Sound.setTrialRegistered (sound : trial.Sound) : trial.setTrialRegistered.Sound :=
  ⟨sound.forced, sound.group, sound.next⟩

theorem Sound.getState (sound : trial.Sound) : trial.getState.1.Sound := by
  unfold FieldTrial.getState
  split
  next => exact sound
  next => exact sound.finalizeGroupChoice

theorem sound_new (trialName : Text) (totalProbability : Int) (defaultGroupName : Text) (random : Int) :
    (new trialName totalProbability defaultGroupName random).Sound :=
  ⟨nofun, .inl rfl, Int.le_refl 1⟩

theorem sound_createForced (name groupName : Text) : (createForced name groupName).Sound :=
  (sound_new name 100 groupName 0).setTrialRegistered.setForced

/-- A method leaves a trial its name and its registration. -/
def KeepsPlace (change : FieldTrial → FieldTrial) : Prop :=
  ∀ trial, (change trial).trialName = trial.trialName ∧ (change trial).trialRegistered = trial.trialRegistered

theorem keepsPlace_finalizeGroupChoice : KeepsPlace finalizeGroupChoice := fun trial =>
  ⟨trial.finalizeGroupChoice_trialName, trial.finalizeGroupChoice_trialRegistered⟩

theorem keepsPlace_setForced : KeepsPlace setForced := by
  intro trial
  unfold setForced
  split
  next => exact ⟨rfl, rfl⟩
  next => exact keepsPlace_finalizeGroupChoice trial

theorem keepsPlace_disable : KeepsPlace disable := by
  intro trial
  unfold disable
  dsimp only
  split
  next => split <;> exact ⟨rfl, rfl⟩
  next => exact ⟨rfl, rfl⟩

theorem keepsPlace_appendGroup (benchmarking : Bool) (name : Text) (probability : Int) :
    KeepsPlace fun trial => (trial.appendGroup benchmarking name probability).1 := by
  intro trial
  dsimp only
  rcases trial.appendGroup_cases benchmarking name probability with
    ⟨_, _, same⟩ | ⟨_, _, same⟩ | ⟨accumulatedGroupProbability, _, ⟨_, same⟩ | same⟩ <;>
  · rw [same]
    exact ⟨rfl, rfl⟩

end FieldTrial

namespace FieldTrialList

/-- A call of a method of a trial in the list. -/
def onTrial (list : FieldTrialList) (name : Text) (change : FieldTrial → FieldTrial) (keeps : KeepsPlace change) :
    FieldTrialList :=
  match found : list.find name with
  | none => list
  | some trial => list.put (change trial) ((keeps trial).2.trans (named_of_find found).2)

/-- `FactoryGetFieldTrialWithRandomizationSeed`: the list, the trial and the default group number. `random` is
the boundary that the entropy value gives, and a trial is `expired` when the build is later than its date. -/
def factoryGetFieldTrial (list : FieldTrialList) (trialName : Text) (totalProbability : Int)
    (defaultGroupName : Text) (random : Int) (expired : Bool) : Option (FieldTrialList × FieldTrial × Int) :=
  match list.find trialName with
  | some existingTrial =>
    if existingTrial.forced then
      let defaultGroupNumber :=
        if defaultGroupName ≠ existingTrial.defaultGroupName then
          if defaultGroupName = existingTrial.groupName then existingTrial.group else -2
        else kDefaultGroupNumber
      some (list, existingTrial, defaultGroupNumber)
    else none
  | none =>
    let fieldTrial := FieldTrial.new trialName totalProbability defaultGroupName random
    let fieldTrial := if expired then fieldTrial.disable else fieldTrial
    some (list.put fieldTrial.setTrialRegistered rfl, fieldTrial.setTrialRegistered, kDefaultGroupNumber)

/-- The calls that change a list or a trial in it. -/
inductive Call where
  | factoryGetFieldTrial (trialName : Text) (totalProbability : Int) (defaultGroupName : Text) (random : Int)
      (expired : Bool)
  | appendGroup (trialName : Text) (enableBenchmarking : Bool) (name : Text) (groupProbability : Int)
  | group (trialName : Text)
  | getGroupNameWithoutActivation (trialName : Text)
  | disable (trialName : Text)
  | setForced (trialName : Text)
  | createFieldTrial (name groupName : Text)
  | createTrialsFromString (trialsString : Text) (mode : FieldTrialActivationMode) (ignoredTrialNames : List Text)
  | allStatesToString

/-- What a call makes of the list; a failed check leaves none. -/
def Call.perform (list : FieldTrialList) : Call → Option FieldTrialList
  | .factoryGetFieldTrial trialName totalProbability defaultGroupName random expired =>
    (list.factoryGetFieldTrial trialName totalProbability defaultGroupName random expired).map Prod.fst
  | .appendGroup trialName enableBenchmarking name groupProbability =>
    some (list.onTrial trialName _ (keepsPlace_appendGroup enableBenchmarking name groupProbability))
  | .group trialName =>
    match list.find trialName with
    | some trial => some (list.group trial)
    | none => some list
  | .getGroupNameWithoutActivation trialName => some (list.onTrial trialName _ keepsPlace_finalizeGroupChoice)
  | .disable trialName => some (list.onTrial trialName _ keepsPlace_disable)
  | .setForced trialName => some (list.onTrial trialName _ keepsPlace_setForced)
  | .createFieldTrial name groupName => some (list.createFieldTrial name groupName).1
  | .createTrialsFromString trialsString mode ignoredTrialNames =>
    some (list.createTrialsFromString trialsString mode ignoredTrialNames).1
  | .allStatesToString => some list.allStatesToString.1

/-- The lists that earlier calls can leave. -/
def Reached (list : FieldTrialList) : Prop := ∃ calls : List Call, calls.foldlM Call.perform empty = some list

def Sound (list : FieldTrialList) : Prop := ∀ name trial, list.find name = some trial → trial.Sound

variable {list : FieldTrialList}

section
variable (sound : list.Sound)
include sound

theorem Sound.put {trial : FieldTrial} (added : trial.Sound)
    (registered : trial.trialRegistered = true) : (list.put trial registered).Sound := by
  intro name other found
  rw [find_put] at found
  split at found
  next => exact Option.some.inj found ▸ added
  next => exact sound name other found

theorem Sound.onTrial (name : Text) {change : FieldTrial → FieldTrial}
    (keeps : KeepsPlace change) (kept : ∀ trial : FieldTrial, trial.Sound → (change trial).Sound) :
    (list.onTrial name change keeps).Sound := by
  unfold FieldTrialList.onTrial
  split
  next => exact sound
  next trial found => exact sound.put (kept trial (sound name trial found)) _

theorem Sound.group {trial : FieldTrial} (added : trial.Sound)
    (registered : trial.trialRegistered = true) : (list.group trial).Sound := by
  intro name other found
  rw [find_group list registered] at found
  have finalized := added.finalizeGroupChoice
  split at found
  next => exact Option.some.inj found ▸ ⟨finalized.forced, finalized.group, finalized.next⟩
  next => exact sound name other found

theorem Sound.createFieldTrial (name groupName : Text) :
    (list.createFieldTrial name groupName).1.Sound := by
  unfold FieldTrialList.createFieldTrial
  split
  next => exact sound
  next =>
    split
    next => split <;> exact sound
    next => exact sound.put (sound_createForced name groupName) (createForced_trialRegistered name groupName)

theorem Sound.createTrials (mode : FieldTrialActivationMode) (ignored : List Text)
    (entries : List State) : (createTrials mode ignored list entries).1.Sound := by
  induction entries generalizing list with
  | nil => exact sound
  | cons entry rest ih =>
    have created := sound.createFieldTrial entry.trialName entry.groupName
    unfold FieldTrialList.createTrials
    split
    next => exact ih sound
    next =>
      split
      next next made =>
        rw [made] at created
        exact created
      next next trial made =>
        rw [made] at created
        apply ih
        split
        next =>
          have listed : next.find entry.trialName = some trial := by
            rcases createFieldTrial_cases made with ⟨rfl, found⟩ | ⟨_, finds⟩
            · exact found
            · rw [finds, if_pos rfl]
          exact created.group (created _ _ listed) (named_of_find listed).2
        next => exact created

theorem Sound.perform {next : FieldTrialList} {call : Call}
    (performed : call.perform list = some next) : next.Sound := by
  cases call with
  | factoryGetFieldTrial trialName totalProbability defaultGroupName random expired =>
    obtain ⟨result, made, rfl⟩ := Option.map_eq_some_iff.mp performed
    unfold FieldTrialList.factoryGetFieldTrial at made
    split at made
    next =>
      split at made
      next =>
        cases made
        exact sound
      next => cases made
    next =>
      cases made
      refine sound.put (FieldTrial.Sound.setTrialRegistered ?_) rfl
      have new := sound_new trialName totalProbability defaultGroupName random
      split
      next => exact new.disable
      next => exact new
  | appendGroup trialName benchmarking name probability =>
    cases performed
    exact sound.onTrial trialName _ fun trial sound => sound.appendGroup benchmarking name probability
  | group trialName =>
    simp only [Call.perform] at performed
    split at performed
    next trial found =>
      cases performed
      exact sound.group (sound _ _ found) (named_of_find found).2
    next =>
      cases performed
      exact sound
  | getGroupNameWithoutActivation trialName =>
    cases performed
    exact sound.onTrial trialName _ fun trial sound => sound.finalizeGroupChoice
  | disable trialName =>
    cases performed
    exact sound.onTrial trialName _ fun trial sound => sound.disable
  | setForced trialName =>
    cases performed
    exact sound.onTrial trialName _ fun trial sound => sound.setForced
  | createFieldTrial name groupName =>
    cases performed
    exact sound.createFieldTrial name groupName
  | createTrialsFromString trialsString mode ignored =>
    cases performed
    unfold createTrialsFromString
    split
    next => exact sound
    next =>
      split
      next => exact sound
      next => exact sound.createTrials mode ignored _
  | allStatesToString =>
    cases performed
    intro name trial found
    rw [find_allStatesToString] at found
    obtain ⟨old, listed, rfl⟩ := Option.map_eq_some_iff.mp found
    exact (sound name old listed).getState

end

theorem sound_of_reached (reached : list.Reached) : list.Sound := by
  have run (calls : List Call) (start : FieldTrialList) (sound : start.Sound)
      (performed : calls.foldlM Call.perform start = some list) : list.Sound := by
    induction calls generalizing start with
    | nil =>
      cases performed
      exact sound
    | cons call rest ih =>
      rw [List.foldlM_cons] at performed
      obtain ⟨next, first, later⟩ := Option.bind_eq_some_iff.mp performed
      exact ih next (sound.perform first) later
  obtain ⟨calls, performed⟩ := reached
  have none_ : empty.Sound := by
    intro name trial found
    cases found
  exact run calls empty none_ performed

end FieldTrialList

/-! ### The numbers of one trial -/

/-- What a caller does with the trial from the factory. -/
inductive Operation where
  | appendGroup (enableBenchmarking : Bool) (name : Text) (groupProbability : Int)
  | group

/-- The trial in the hands of a caller, with the names and numbers that were returned for them, and with what
`group` and `group_name` have returned. -/
structure Session where
  trial : FieldTrial
  declared : List (Text × Int)
  observed : List (Int × Text)

namespace Session

def perform (session : Session) : Operation → Session
  | .appendGroup enableBenchmarking name groupProbability =>
    let returned := session.trial.appendGroup enableBenchmarking name groupProbability
    { session with trial := returned.1, declared := session.declared ++ [(name, returned.2)] }
  | .group =>
    let trial := session.trial.observe
    { session with trial, observed := session.observed ++ [(trial.group, trial.groupName)] }

/-- Different numbers, one result of `group` for good, and that result is the number of the group with its name
if there is one, and no number that was returned otherwise. -/
structure Numbered (session : Session) : Prop where
  distinct : (session.declared.map Prod.snd).Nodup
  settled : ∀ seen ∈ session.observed, ∀ later ∈ session.observed, seen = later
  declared : ∀ seen ∈ session.observed, ∀ entry ∈ session.declared, entry.1 = seen.2 → seen.1 = entry.2
  undeclared : ∀ seen ∈ session.observed, seen.2 ∉ session.declared.map Prod.fst →
    seen.1 ∉ session.declared.map Prod.snd

/-- What holds between the calls. The number of a chosen group stands for its name and for no other, and what is
not chosen yet will be the default group. -/
structure Kept (session : Session) : Prop where
  names : (session.declared.map Prod.fst).Nodup
  distinct : (session.declared.map Prod.snd).Nodup
  below : ∀ entry ∈ session.declared, entry.2 < session.trial.nextGroupNumber
  sound : session.trial.Sound
  chosen : session.trial.group ≠ kNotFinalized →
    ∀ entry ∈ session.declared, entry.1 = session.trial.groupName ↔ entry.2 = session.trial.group
  known : session.trial.group ≠ kNotFinalized → session.trial.forced = false →
    session.trial.groupName ∈ session.declared.map Prod.fst
  awaited : session.trial.group = kNotFinalized → session.trial.defaultGroupName ≠ [] ∧
    (session.trial.defaultGroupName, kDefaultGroupNumber) ∈ session.declared
  observed : ∀ seen ∈ session.observed,
    session.trial.group ≠ kNotFinalized ∧ seen = (session.trial.group, session.trial.groupName)

variable {session : Session}

theorem Kept.numbered (kept : session.Kept) : session.Numbered where
  distinct := kept.distinct
  settled seen member later member' := by
    rw [(kept.observed seen member).2, (kept.observed later member').2]
  declared seen member entry listed named := by
    obtain ⟨finalized, rfl⟩ := kept.observed seen member
    exact ((kept.chosen finalized entry listed).mp named).symm
  undeclared seen member absent returned := by
    obtain ⟨finalized, rfl⟩ := kept.observed seen member
    obtain ⟨entry, listed, same⟩ := List.mem_map.mp returned
    exact absent (List.mem_map.mpr ⟨entry, listed, (kept.chosen finalized entry listed).mpr same⟩)

/-- One more name with a number of its own. -/
structure Extends (session : Session) (trial : FieldTrial) (name : Text) (number : Int) : Prop where
  fresh : name ∉ session.declared.map Prod.fst
  unused : number ∉ session.declared.map Prod.snd
  number_lt : number < trial.nextGroupNumber
  sound : trial.Sound
  next : session.trial.nextGroupNumber ≤ trial.nextGroupNumber
  defaultGroupName : trial.defaultGroupName = session.trial.defaultGroupName

section
variable (kept : session.Kept)
include kept

theorem Kept.extend {trial : FieldTrial} {name : Text} {number : Int}
    (extends_ : session.Extends trial name number)
    (chosen : trial.group ≠ kNotFinalized → (name = trial.groupName ↔ number = trial.group) ∧
      ∀ entry ∈ session.declared, entry.1 = trial.groupName ↔ entry.2 = trial.group)
    (known : trial.group ≠ kNotFinalized → trial.forced = false →
      trial.groupName = name ∨ trial.groupName ∈ session.declared.map Prod.fst)
    (awaited : trial.group = kNotFinalized → session.trial.group = kNotFinalized)
    (observed : session.trial.group ≠ kNotFinalized →
      trial.group = session.trial.group ∧ trial.groupName = session.trial.groupName) :
    Session.Kept { session with trial, declared := session.declared ++ [(name, number)] } where
  names := by
    rw [List.map_append, List.map_singleton, ← List.concat_eq_append]
    exact kept.names.concat extends_.fresh
  distinct := by
    rw [List.map_append, List.map_singleton, ← List.concat_eq_append]
    exact kept.distinct.concat extends_.unused
  below entry listed := by
    cases List.mem_append.mp listed with
    | inl old => exact Int.lt_of_lt_of_le (kept.below entry old) extends_.next
    | inr new =>
      rw [List.mem_singleton.mp new]
      exact extends_.number_lt
  sound := extends_.sound
  chosen finalized entry listed := by
    cases List.mem_append.mp listed with
    | inl old => exact (chosen finalized).2 entry old
    | inr new =>
      rw [List.mem_singleton.mp new]
      exact (chosen finalized).1
  known finalized unforced := by
    rw [List.map_append, List.mem_append, List.map_singleton, List.mem_singleton]
    exact (known finalized unforced).symm
  awaited unfinalized := by
    obtain ⟨nonempty, listed⟩ := kept.awaited (awaited unfinalized)
    dsimp only
    rw [extends_.defaultGroupName]
    exact ⟨nonempty, List.mem_append_left _ listed⟩
  observed seen member := by
    obtain ⟨finalized, same⟩ := kept.observed seen member
    obtain ⟨group, groupName⟩ := observed finalized
    dsimp only
    rw [group, groupName]
    exact ⟨finalized, same⟩

theorem Kept.next_unused : session.trial.nextGroupNumber ∉ session.declared.map Prod.snd := by
  intro returned
  obtain ⟨entry, listed, same⟩ := List.mem_map.mp returned
  exact Int.lt_irrefl _ (same ▸ kept.below entry listed)

theorem Kept.group_lt (finalized : session.trial.group ≠ kNotFinalized) :
    session.trial.group < session.trial.nextGroupNumber :=
  (kept.sound.group.resolve_left finalized).2

theorem Kept.appendGroup (benchmarking : Bool) {name : Text} (probability : Int)
    (nonempty : name ≠ []) (fresh : name ∉ session.declared.map Prod.fst) :
    (session.perform (.appendGroup benchmarking name probability)).Kept := by
  have sound := kept.sound.appendGroup benchmarking name probability
  have unused := kept.next_unused
  have step := Int.lt_add_one_iff.mpr (Int.le_refl session.trial.nextGroupNumber)
  unfold perform
  dsimp only
  rcases session.trial.appendGroup_cases benchmarking name probability with
    ⟨forced, same, returned⟩ | ⟨forced, differs, returned⟩ | ⟨_, unforced, ⟨unfinalized, returned⟩ | returned⟩
  · rw [returned] at sound ⊢
    have finalized := kept.sound.forced forced
    have absent : session.trial.group ∉ session.declared.map Prod.snd := by
      intro listed
      obtain ⟨entry, member, number⟩ := List.mem_map.mp listed
      have named := (kept.chosen finalized entry member).mpr number
      exact fresh (List.mem_map.mpr ⟨entry, member, named.trans same.symm⟩)
    exact kept.extend ⟨fresh, absent, kept.group_lt finalized, sound, Int.le_refl _, rfl⟩
      (fun finalized => ⟨iff_of_true same rfl, kept.chosen finalized⟩) (fun _ unforced => by simp [forced] at unforced)
      id (fun _ => ⟨rfl, rfl⟩)
  · rw [returned] at sound ⊢
    have finalized := kept.sound.forced forced
    have other : session.trial.nextGroupNumber ≠ session.trial.group := Int.ne_of_gt (kept.group_lt finalized)
    exact kept.extend ⟨fresh, unused, step, sound, Int.le_of_lt step, rfl⟩
      (fun finalized => ⟨iff_of_false differs other, kept.chosen finalized⟩)
      (fun _ unforced => by simp [forced] at unforced) id (fun _ => ⟨rfl, rfl⟩)
  · rw [returned] at sound ⊢
    have named : (session.trial.setGroupChoice name session.trial.nextGroupNumber).groupName = name :=
      if_neg (by simpa using nonempty)
    refine kept.extend ⟨fresh, unused, step, sound, Int.le_of_lt step, rfl⟩ (fun _ => ⟨iff_of_true named.symm rfl, ?_⟩)
      (fun _ _ => .inl named) (fun _ => unfinalized) (fun finalized => absurd unfinalized finalized)
    intro entry member
    refine iff_of_false ?_ ?_
    · intro same
      exact fresh (List.mem_map.mpr ⟨entry, member, same.trans named⟩)
    · intro same
      exact unused (List.mem_map.mpr ⟨entry, member, same⟩)
  · rw [returned] at sound ⊢
    refine kept.extend ⟨fresh, unused, step, sound, Int.le_of_lt step, rfl⟩
      (fun finalized => ⟨?_, kept.chosen finalized⟩) (fun finalized unforced => .inr (kept.known finalized unforced))
      id (fun _ => ⟨rfl, rfl⟩)
    refine iff_of_false ?_ (Int.ne_of_gt (kept.group_lt finalized))
    intro same
    exact fresh (same ▸ kept.known finalized unforced)

theorem Kept.group_of_chosen (finalized : session.trial.group ≠ kNotFinalized) :
    (session.perform .group).Kept := by
  have same := finalizeGroupChoice_of_ne finalized
  have sound := kept.sound.observe
  simp only [perform, FieldTrial.observe, same] at sound ⊢
  refine ⟨kept.names, kept.distinct, kept.below, sound, kept.chosen, kept.known, kept.awaited, ?_⟩
  intro seen member
  cases List.mem_append.mp member with
  | inl old => exact kept.observed seen old
  | inr new => exact ⟨finalized, List.mem_singleton.mp new⟩

theorem Kept.group_of_open (open_ : session.trial.group = kNotFinalized) :
    (session.perform .group).Kept := by
  obtain ⟨nonempty, listed⟩ := kept.awaited open_
  have sound := kept.sound.observe
  have same := finalizeGroupChoice_of_eq open_
  have group : session.trial.observe.group = kDefaultGroupNumber := by
    rw [FieldTrial.observe, same]
    rfl
  have groupName : session.trial.observe.groupName = session.trial.defaultGroupName := by
    rw [FieldTrial.observe, same]
    exact if_neg (by simpa using nonempty)
  have number : session.trial.observe.nextGroupNumber = session.trial.nextGroupNumber := by
    rw [FieldTrial.observe, same]
    rfl
  have finalized : session.trial.observe.group ≠ kNotFinalized := finalizeGroupChoice_finalized
  unfold perform
  refine ⟨kept.names, kept.distinct, ?_, sound, ?_, ?_, fun unfinalized => absurd unfinalized finalized, ?_⟩
  · intro entry member
    dsimp only
    rw [number]
    exact kept.below entry member
  · intro _ entry member
    dsimp only
    rw [group, groupName]
    constructor
    · intro named
      exact congrArg Prod.snd (List.inj_on_of_nodup_map kept.names member listed named)
    · intro numbered
      exact congrArg Prod.fst (List.inj_on_of_nodup_map kept.distinct member listed numbered)
  · intro _ _
    dsimp only
    rw [groupName]
    exact List.mem_map_of_mem listed
  · intro seen member
    cases List.mem_append.mp member with
    | inl old => exact absurd open_ (kept.observed seen old).1
    | inr new => exact ⟨finalized, List.mem_singleton.mp new⟩

theorem Kept.group : (session.perform .group).Kept := by
  by_cases open_ : session.trial.group = kNotFinalized
  · exact kept.group_of_open open_
  · exact kept.group_of_chosen open_

end

/-- The names of the groups that are declared. -/
def appended (operations : List Operation) : List Text :=
  operations.filterMap fun
    | .appendGroup _ name _ => some name
    | .group => none

/-- The run of a caller that declares new names only. -/
theorem Kept.run (operations : List Operation) (kept : session.Kept) (distinct : (appended operations).Nodup)
    (fresh : ∀ name ∈ appended operations, name ≠ [] ∧ name ∉ session.declared.map Prod.fst) :
    (operations.foldl perform session).Kept := by
  induction operations generalizing session with
  | nil => exact kept
  | cons operation rest ih =>
    cases operation with
    | group => exact ih kept.group distinct fresh
    | appendGroup benchmarking name probability =>
      obtain ⟨absent, distinct⟩ := List.nodup_cons.mp distinct
      obtain ⟨nonempty, new⟩ := fresh name List.mem_cons_self
      apply ih (kept.appendGroup benchmarking probability nonempty new) distinct
      intro other later
      obtain ⟨nonempty, new⟩ := fresh other (List.mem_cons_of_mem name later)
      refine ⟨nonempty, ?_⟩
      intro declared
      simp only [perform, List.map_append, List.mem_append, List.map_singleton, List.mem_singleton] at declared
      cases declared with
      | inl old => exact new old
      | inr same => exact absent (same ▸ later)

end Session

/-- Whether the default number fits the state before the call. A new trial needs a name for its default group;
a forced trial that is asked for its own default group must have chosen number zero just when it has that group. -/
def FitsDefault (list : FieldTrialList) (trialName defaultGroupName : Text) : Prop :=
  match list.find trialName with
  | none => defaultGroupName ≠ []
  | some trial => defaultGroupName = trial.defaultGroupName →
      (trial.groupName = trial.defaultGroupName ↔ trial.group = kDefaultGroupNumber)

/-- A call of the factory, whose trial is then numbered whatever its caller does. -/
def AlwaysNumbered (list : FieldTrialList) (trialName : Text) (totalProbability : Int) (defaultGroupName : Text)
    (random : Int) (expired : Bool) : Prop :=
  ∀ (next : FieldTrialList) (trial : FieldTrial) (defaultGroupNumber : Int),
    list.factoryGetFieldTrial trialName totalProbability defaultGroupName random expired =
      some (next, trial, defaultGroupNumber) →
    ∀ operations : List Operation, (Session.appended operations).Nodup →
      (∀ name ∈ Session.appended operations, name ≠ [] ∧ name ≠ defaultGroupName) →
        (operations.foldl Session.perform ⟨trial, [(defaultGroupName, defaultGroupNumber)], []⟩).Numbered

variable {trial : FieldTrial} {defaultGroupName : Text}

theorem kept_of_new (nonempty : defaultGroupName ≠ []) (sound : trial.Sound) (open_ : trial.group = kNotFinalized)
    (same : trial.defaultGroupName = defaultGroupName) :
    Session.Kept ⟨trial, [(defaultGroupName, kDefaultGroupNumber)], []⟩ where
  names := by simp
  distinct := by simp
  below entry listed := by
    rw [List.mem_singleton.mp listed]
    exact Int.lt_of_lt_of_le Int.zero_lt_one sound.next
  sound := sound
  chosen finalized := absurd open_ finalized
  known finalized := absurd open_ finalized
  awaited _ := ⟨same ▸ nonempty, by simp [same]⟩
  observed := nofun

theorem kept_of_forced {defaultGroupNumber : Int} (sound : trial.Sound) (forced : trial.forced = true)
    (below : defaultGroupNumber < trial.nextGroupNumber)
    (fits : defaultGroupName = trial.groupName ↔ defaultGroupNumber = trial.group) :
    Session.Kept ⟨trial, [(defaultGroupName, defaultGroupNumber)], []⟩ where
  names := by simp
  distinct := by simp
  below entry listed := by
    rw [List.mem_singleton.mp listed]
    exact below
  sound := sound
  chosen _ entry listed := by
    rw [List.mem_singleton.mp listed]
    exact fits
  known _ unforced := by simp [forced] at unforced
  awaited open_ := absurd open_ (sound.forced forced)
  observed := nofun

/-- The trial that the factory makes. -/
def made (trialName : Text) (totalProbability : Int) (defaultGroupName : Text) (random : Int) (expired : Bool) :
    FieldTrial :=
  let fieldTrial := FieldTrial.new trialName totalProbability defaultGroupName random
  (if expired then fieldTrial.disable else fieldTrial).setTrialRegistered

theorem made_fields (trialName : Text) (totalProbability : Int) (defaultGroupName : Text) (random : Int)
    (expired : Bool) :
    (made trialName totalProbability defaultGroupName random expired).Sound ∧
      (made trialName totalProbability defaultGroupName random expired).group = kNotFinalized ∧
      (made trialName totalProbability defaultGroupName random expired).defaultGroupName = defaultGroupName := by
  have new := sound_new trialName totalProbability defaultGroupName random
  cases expired with
  | false => exact ⟨new.setTrialRegistered, rfl, rfl⟩
  | true => exact ⟨new.disable.setTrialRegistered, rfl, rfl⟩

/-- The default number that the factory gives for a forced trial. -/
def numberOf (trial : FieldTrial) (defaultGroupName : Text) : Int :=
  if defaultGroupName ≠ trial.defaultGroupName then
    if defaultGroupName = trial.groupName then trial.group else -2
  else kDefaultGroupNumber

theorem numberOf_lt (sound : trial.Sound) (forced : trial.forced = true) (defaultGroupName : Text) :
    numberOf trial defaultGroupName < trial.nextGroupNumber := by
  have next := sound.next
  have below := (sound.group.resolve_left (sound.forced forced)).2
  unfold numberOf
  split
  next =>
    split
    next => exact below
    next => omega
  next => exact Int.lt_of_lt_of_le Int.zero_lt_one next

theorem numberOf_fits (sound : trial.Sound) (forced : trial.forced = true)
    (fits : defaultGroupName = trial.defaultGroupName →
      (trial.groupName = trial.defaultGroupName ↔ trial.group = kDefaultGroupNumber)) :
    defaultGroupName = trial.groupName ↔ numberOf trial defaultGroupName = trial.group := by
  have least := (sound.group.resolve_left (sound.forced forced)).1
  unfold numberOf
  split
  next differs =>
    split
    next same => exact iff_of_true same rfl
    next other => exact iff_of_false other (by omega)
  next same =>
    have own := not_not.mp same
    rw [own, eq_comm, fits own, eq_comm]

/-- The numbers of a caller are consistent whatever it does, exactly if the default number fits. -/
theorem alwaysNumbered_iff {list : FieldTrialList} (reached : list.Reached) (trialName : Text) (totalProbability : Int)
    (defaultGroupName : Text) (random : Int) (expired : Bool)
    (available : ∀ trial, list.find trialName = some trial → trial.forced = true) :
    AlwaysNumbered list trialName totalProbability defaultGroupName random expired ↔
      FitsDefault list trialName defaultGroupName := by
  have sound := FieldTrialList.sound_of_reached reached
  unfold FitsDefault
  split
  next found =>
    have result : list.factoryGetFieldTrial trialName totalProbability defaultGroupName random expired =
        some (list.put (made trialName totalProbability defaultGroupName random expired) rfl,
          made trialName totalProbability defaultGroupName random expired, kDefaultGroupNumber) := by
      rw [FieldTrialList.factoryGetFieldTrial, found]
      rfl
    obtain ⟨madeSound, open_, same⟩ := made_fields trialName totalProbability defaultGroupName random expired
    constructor
    · intro numbered empty
      subst empty
      have observed := numbered _ _ _ result [.group] List.nodup_nil nofun
      have seen : (kDefaultGroupNumber, decimal 0) ∈
          [((made trialName totalProbability [] random expired).observe.group,
            (made trialName totalProbability [] random expired).observe.groupName)] := by
        cases expired <;> exact List.mem_singleton.mpr rfl
      have undeclared : decimal 0 ∉ [([] : Text)] := fun same => absurd (List.mem_singleton.mp same) (by decide)
      exact observed.undeclared _ seen undeclared List.mem_cons_self
    · intro nonempty next trial number factory operations distinct fresh
      rw [result] at factory
      cases factory
      have kept := kept_of_new nonempty madeSound open_ same
      exact (kept.run operations distinct (by simpa using fresh)).numbered
  next trial found =>
    have forced := available trial found
    have result : list.factoryGetFieldTrial trialName totalProbability defaultGroupName random expired =
        some (list, trial, numberOf trial defaultGroupName) := by
      rw [FieldTrialList.factoryGetFieldTrial, found]
      exact if_pos forced
    have trialSound := sound trialName trial found
    constructor
    · intro numbered own
      have observed := numbered _ _ _ result [.group] List.nodup_nil nofun
      have number : numberOf trial defaultGroupName = kDefaultGroupNumber := if_neg (not_not.mpr own)
      have unchanged := finalizeGroupChoice_of_ne (trialSound.forced forced)
      have seen : (trial.group, trial.groupName) ∈ [(trial.observe.group, trial.observe.groupName)] := by
        rw [FieldTrial.observe, unchanged]
        exact List.mem_singleton.mpr rfl
      rw [number] at observed
      constructor
      · intro same
        exact observed.declared _ seen _ List.mem_cons_self (own.trans same.symm)
      · intro zero
        by_contra other
        have undeclared : trial.groupName ∉ [defaultGroupName] := fun same =>
          other ((List.mem_singleton.mp same).trans own)
        exact observed.undeclared _ seen undeclared (List.mem_singleton.mpr zero)
    · intro fits next other number factory operations distinct fresh
      rw [result] at factory
      cases factory
      have kept := kept_of_forced trialSound forced (numberOf_lt trialSound forced defaultGroupName)
        (numberOf_fits trialSound forced fits)
      exact (kept.run operations distinct (by simpa using fresh)).numbered

theorem alwaysNumbered_iff_empty : AlwaysNumbered .empty [116] 100 [68] 0 false ↔ FitsDefault .empty [116] [68] :=
  alwaysNumbered_iff ⟨[], rfl⟩ [116] 100 [68] 0 false (fun _ found => by cases found)

/-- A trial `t` with the default group `D` has chosen a group that was appended under that name, with number one,
and was forced then. -/
def forcedByName : FieldTrial where
  trialName := [116]
  divisor := 100
  defaultGroupName := [68]
  random := 0
  accumulatedGroupProbability := 100
  nextGroupNumber := 2
  group := 1
  groupName := [68]
  enableFieldTrial := true
  forced := true
  groupReported := false
  trialRegistered := true

theorem not_alwaysNumbered :
    ¬∀ (list : FieldTrialList) (trialName : Text) (totalProbability : Int) (defaultGroupName : Text) (random : Int)
      (expired : Bool), list.Reached →
        (∀ trial, list.find trialName = some trial → trial.forced = true) → defaultGroupName ≠ [] →
          AlwaysNumbered list trialName totalProbability defaultGroupName random expired := by
  intro always
  have run : (List.foldlM FieldTrialList.Call.perform FieldTrialList.empty
      [.factoryGetFieldTrial [116] 100 [68] 0 false, .appendGroup [116] false [68] 100, .setForced [116]]).map
        (fun list => list.find [116]) = some (some forcedByName) := by decide +kernel
  obtain ⟨list, reached, found⟩ := Option.map_eq_some_iff.mp run
  have forced (trial : FieldTrial) (listed : list.find [116] = some trial) : trial.forced = true := by
    rw [found] at listed
    exact Option.some.inj listed ▸ rfl
  have result : list.factoryGetFieldTrial [116] 100 [68] 0 false = some (list, forcedByName, 0) := by
    rw [FieldTrialList.factoryGetFieldTrial, found]
    rfl
  have numbered := always list [116] 100 [68] 0 false ⟨_, reached⟩ forced (by decide) list forcedByName 0 result
    [.group] List.nodup_nil nofun
  have zero : (1 : Int) = 0 := numbered.declared (1, [68]) (List.mem_singleton.mpr rfl) ([68], 0)
    List.mem_cons_self rfl
  cases zero

end Libchrome.Base.Metrics
