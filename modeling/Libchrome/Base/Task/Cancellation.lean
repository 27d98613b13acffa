import Libchrome.Base.Task.TrackerInvariant

/-!
# What a cancellation promises

Once a cancellation has returned, no later step of any thread starts the body or the reply of the id; the map
holds an id from the return of the call that made it to the end of its reply or `untrack` step.
-/

namespace Libchrome.Base.Task
open Library CancelableTaskTracker

/-- The calls that cancel an id; the destructor cancels all of them. -/
def Action.Cancels (action : Action) (id : Nat) : Prop :=
  action = .tryCancel id ∨ action = .tryCancelAll ∨ action = .destroy

namespace CancelableTaskTracker
variable {s t : CancelableTaskTracker} {id : Nat}

/-- Nothing of the id will start any more: its closures are gone, or they will see the flag. -/
def Silenced (s : CancelableTaskTracker) (id : Nat) : Prop :=
  id < s.nextId ∧ ((s.stage id).live = true → s.flag id = .raised)

/-- `t` has started nothing of the id that `s` had not. -/
def Quiet (s t : CancelableTaskTracker) (id : Nat) : Prop :=
  t.bodies.count id = s.bodies.count id ∧ t.replies.count id = s.replies.count id

theorem Silenced.of_view (silenced : s.Silenced id) (later : s.nextId ≤ t.nextId) (same : t.view id = s.view id) :
    t.Silenced id ∧ Quiet s t id := by
  have stage : t.stage id = s.stage id := congrArg View.stage same
  have flag : t.flag id = s.flag id := congrArg View.flag same
  refine ⟨⟨Nat.lt_of_lt_of_le silenced.1 later, ?_⟩, congrArg View.bodies same, congrArg View.replies same⟩
  rw [stage, flag]
  exact silenced.2

theorem Silenced.setStage (silenced : s.Silenced id) {target : Nat} (live : (s.stage target).live = true)
    (stage : Stage) : (s.setStage target stage).Silenced id := by
  refine ⟨silenced.1, fun now => ?_⟩
  by_cases same : id = target
  · subst same
    exact silenced.2 live
  · simp only [CancelableTaskTracker.setStage, Function.update_of_ne same] at now
    exact silenced.2 now

/-- The check of a flag runs nothing of an id that is silenced. -/
theorem Silenced.unlessSet (silenced : s.Silenced id) {target : Nat} (live : (s.stage target).live = true)
    {run : CancelableTaskTracker → CancelableTaskTracker}
    (keeps : (run s).stage = s.stage ∧ (run s).flag = s.flag ∧ (run s).nextId = s.nextId)
    (others : target ≠ id → Quiet s (run s) id) :
    (s.unlessSet target run).Silenced id ∧ Quiet s (s.unlessSet target run) id := by
  unfold CancelableTaskTracker.unlessSet
  split
  next clear =>
    have apart : target ≠ id := by
      rintro rfl
      rw [silenced.2 live] at clear
      exact Flag.noConfusion clear
    have quiet := others apart
    refine ⟨?_, quiet⟩
    unfold Silenced
    rw [keeps.1, keeps.2.1, keeps.2.2]
    exact silenced
  next => split <;> exact ⟨silenced, rfl, rfl⟩

theorem unlessSet_stage (s : CancelableTaskTracker) (target : Nat) {run : CancelableTaskTracker → CancelableTaskTracker}
    (keeps : (run s).stage = s.stage) : (s.unlessSet target run).stage = s.stage := by
  unfold CancelableTaskTracker.unlessSet
  split
  next => exact keeps
  next => split <;> rfl

theorem quiet_recordBody {target : Nat} (apart : target ≠ id) : Quiet s (recordBody target s) id :=
  ⟨List.count_cons_of_ne apart, rfl⟩

theorem quiet_recordReply {target : Nat} (apart : target ≠ id) : Quiet s (recordReply target s) id :=
  ⟨rfl, List.count_cons_of_ne apart⟩

theorem Silenced.settle (silenced : s.Silenced id) {target : Nat}
    (held : s.flag target = .clear ∨ s.flag target = .raised)
    (counted : s.taskFlags.count target = if s.alive then 1 else 0) :
    (s.settle target).Silenced id ∧ Quiet s (s.settle target) id := by
  have next := (settle_frame held).2.1
  have shown := view_settle held counted id
  by_cases same : id = target
  · rw [if_pos same] at shown
    have stage : (s.settle target).stage id = .done := congrArg View.stage shown
    have bodies : (s.settle target).bodies.count id = s.bodies.count target := congrArg View.bodies shown
    have replies : (s.settle target).replies.count id = s.replies.count target := congrArg View.replies shown
    subst same
    refine ⟨⟨by rw [next]; exact silenced.1, fun live => ?_⟩, bodies, replies⟩
    rw [stage] at live
    exact absurd live Bool.false_ne_true
  · rw [if_neg same] at shown
    exact silenced.of_view (Nat.le_of_eq next.symm) shown

/-- The ids that an `untrack` step may run for meet what `settle` needs. -/
theorem Sound.settles (sound : s.Sound) (settling : Legal.Settling (s.stage id)) :
    (s.flag id = .clear ∨ s.flag id = .raised) ∧ s.taskFlags.count id = if s.alive then 1 else 0 := by
  have live : (s.stage id).live = true := by
    rcases settling with stage | stage | ⟨count, stage⟩ <;> rw [stage] <;> rfl
  exact ⟨sound.live_flag live, (sound.legal id).tracked_of_settling settling⟩

theorem raise_flag (s : CancelableTaskTracker) (target id : Nat) : (s.raise target).stage = s.stage ∧
    (s.raise target).nextId = s.nextId ∧ (s.flag id = .raised → (s.raise target).flag id = .raised) := by
  unfold raise setFlag
  split
  next =>
    refine ⟨rfl, rfl, fun raised => ?_⟩
    show Function.update s.flag target .raised id = .raised
    rw [Function.update_apply]
    split
    next => rfl
    next => exact raised
  next => exact ⟨rfl, rfl, fun raised => raised⟩

theorem raiseAll_flag (ids : List Nat) (s : CancelableTaskTracker) (id : Nat) :
    (ids.foldl raise s).stage = s.stage ∧ (ids.foldl raise s).nextId = s.nextId ∧
      (s.flag id = .raised → (ids.foldl raise s).flag id = .raised) ∧ Quiet s (ids.foldl raise s) id := by
  induction ids generalizing s with
  | nil => exact ⟨rfl, rfl, fun raised => raised, rfl, rfl⟩
  | cons first ids ih =>
    have one := raise_flag s first id
    have rest := ih (s.raise first)
    have quiet : Quiet s (s.raise first) id := by
      unfold raise
      split <;> exact ⟨rfl, rfl⟩
    exact ⟨rest.1.trans one.1, rest.2.1.trans one.2.1, fun raised => rest.2.2.1 (one.2.2 raised),
      rest.2.2.2.1.trans quiet.1, rest.2.2.2.2.trans quiet.2⟩

theorem raiseAll_raised (sound : s.Sound) {ids : List Nat} (live : ∀ id ∈ ids, (s.stage id).live = true)
    (member : id ∈ ids) : (ids.foldl raise s).flag id = .raised := by
  induction ids generalizing s with
  | nil => exact absurd member List.not_mem_nil
  | cons first ids ih =>
    have one := raise_flag s first id
    have kept : ∀ other ∈ ids, ((s.raise first).stage other).live = true := by
      intro other listed
      rw [one.1]
      exact live other (List.mem_cons_of_mem first listed)
    cases List.mem_cons.mp member with
    | inl same =>
      subst same
      have held := sound.live_flag (live id List.mem_cons_self)
      have raised : (s.raise id).flag id = .raised := by
        rw [raise, if_pos held]
        exact Function.update_self id Flag.raised s.flag
      exact (raiseAll_flag ids (s.raise id) id).2.2.1 raised
    | inr listed => exact ih (sound.raise (live first List.mem_cons_self)) kept listed

theorem Silenced.raiseAll (silenced : s.Silenced id) (ids : List Nat) :
    (ids.foldl raise s).Silenced id ∧ Quiet s (ids.foldl raise s) id := by
  have all := raiseAll_flag ids s id
  refine ⟨⟨by rw [all.2.1]; exact silenced.1, fun live => ?_⟩, all.2.2.2⟩
  rw [all.1] at live
  exact all.2.2.1 (silenced.2 live)

end CancelableTaskTracker

theorem silenced_step {s t : CancelableTaskTracker} {action : Action} {id : Nat} (sound : s.Sound)
    (silenced : s.Silenced id) (moved : step s action = some t) : t.Silenced id ∧ Quiet s t id := by
  have apart : id ≠ s.nextId := Nat.ne_of_lt silenced.1
  cases action with
  | postTaskAndReply accepted =>
    simp only [step, Option.ite_none_right_eq_some, Bool.and_eq_true, Option.some.injEq] at moved
    obtain ⟨⟨-, free⟩, rfl⟩ := moved
    have none' := posting_of_free free
    cases accepted with
    | true => exact silenced.of_view (Nat.le_succ _) (by simp [view, post, setFlag, setStage, apart, apart.symm, none'])
    | false =>
      apply silenced.of_view
      · simp [post, setFlag, deleteFlag]
      · simp [view, post, setFlag, deleteFlag, apart]
  | track =>
    simp only [step] at moved
    split at moved
    next target posting =>
      cases moved
      exact ⟨silenced, rfl, rfl⟩
    next => cases moved
  | newTrackedTaskId =>
    simp only [step, Option.ite_none_right_eq_some, Bool.and_eq_true, Option.some.injEq] at moved
    obtain ⟨-, rfl⟩ := moved
    refine ⟨⟨Nat.lt_succ_of_lt silenced.1, fun live => ?_⟩, rfl, rfl⟩
    simp only [allocateCallback, insertFlag, CancelableTaskTracker.setStage, setFlag, Function.update_of_ne apart] at live ⊢
    exact silenced.2 live
  | tryCancel target =>
    simp only [step, Option.ite_none_right_eq_some, Bool.and_eq_true, Option.some.injEq] at moved
    obtain ⟨-, rfl⟩ := moved
    split
    next => exact silenced.raiseAll [target]
    next => exact ⟨silenced, rfl, rfl⟩
  | tryCancelAll =>
    simp only [step, Option.ite_none_right_eq_some, Bool.and_eq_true, Option.some.injEq] at moved
    obtain ⟨-, rfl⟩ := moved
    exact silenced.raiseAll _
  | destroy =>
    simp only [step, Option.ite_none_right_eq_some, Bool.and_eq_true, Option.some.injEq] at moved
    obtain ⟨-, rfl⟩ := moved
    exact silenced.raiseAll s.taskFlags
  | startTask target =>
    obtain ⟨posted, rfl⟩ := Library.of_guarded moved
    have live : (s.stage target).live = true := by rw [posted]; rfl
    have checked : (s.unlessSet target (recordBody target)).Silenced id ∧
        Quiet s (s.unlessSet target (recordBody target)) id :=
      silenced.unlessSet live ⟨rfl, rfl, rfl⟩ quiet_recordBody
    exact ⟨checked.1.setStage (by rw [unlessSet_stage s target rfl]; exact live) .running, checked.2⟩
  | endTask target accepted =>
    obtain ⟨running, rfl⟩ := Library.of_guarded moved
    have live : (s.stage target).live = true := by rw [running]; rfl
    split
    next =>
      have pushed : (s.pushOrigin (.reply target)).Silenced id := silenced
      exact ⟨pushed.setStage live .replyQueued, rfl, rfl⟩
    next => exact ⟨silenced.setStage live .lost, rfl, rfl⟩
  | dropTask target =>
    obtain ⟨posted, rfl⟩ := Library.of_guarded moved
    exact ⟨silenced.setStage (by rw [posted]; rfl) .lost, rfl, rfl⟩
  | copyCallback target =>
    simp only [step] at moved
    split at moved
    next copies held =>
      cases moved
      exact ⟨silenced.setStage (by rw [held]; rfl) _, rfl, rfl⟩
    next => cases moved
  | isCanceled target =>
    simp only [step] at moved
    split at moved
    next copies held =>
      cases moved
      rw [sound.isCanceled held]
      exact ⟨silenced, rfl, rfl⟩
    next => cases moved
  | deleteCallback target onOrigin accepted =>
    simp only [step] at moved
    split at moved
    next copies held =>
      have live : (s.stage target).live = true := by rw [held]; rfl
      obtain ⟨-, moved⟩ := Option.ite_none_left_eq_some.mp moved
      split at moved
      next last =>
        cases moved
        unfold deleteLast
        split
        next =>
          have settles := sound.settles (.inr (.inr ⟨_, held⟩))
          exact silenced.settle settles.1 settles.2
        next =>
          split
          next =>
            have pushed : (s.pushOrigin (.untrack target)).Silenced id := silenced
            exact ⟨pushed.setStage live .untrackQueued, rfl, rfl⟩
          next => exact ⟨silenced.setStage live .lost, rfl, rfl⟩
      next more =>
        cases moved
        exact ⟨silenced.setStage live _, rfl, rfl⟩
    next => cases moved
  | runOrigin =>
    simp only [step] at moved
    split at moved
    next task rest queue =>
      obtain ⟨-, moved⟩ := Option.ite_none_right_eq_some.mp moved
      cases moved
      have popped : ({ s with originQueue := rest }).Silenced id := silenced
      cases task with
      | reply target =>
        have live : (s.stage target).live = true := by rw [(sound.stage_of_reply queue).1]; rfl
        have checked : ({ s with originQueue := rest }.unlessSet target (recordReply target)).Silenced id ∧
            Quiet { s with originQueue := rest }
              ({ s with originQueue := rest }.unlessSet target (recordReply target)) id :=
          popped.unlessSet live ⟨rfl, rfl, rfl⟩ quiet_recordReply
        exact ⟨checked.1.setStage (by rw [unlessSet_stage _ target rfl]; exact live) .replying, checked.2⟩
      | untrack target =>
        have settles := sound.settles (.inr (.inl (sound.stage_of_untrack queue).1))
        exact popped.settle settles.1 settles.2
    next => cases moved
  | dropOrigin =>
    simp only [step] at moved
    split at moved
    next task rest queue =>
      obtain ⟨-, moved⟩ := Option.ite_none_right_eq_some.mp moved
      cases moved
      have popped : ({ s with originQueue := rest }).Silenced id := silenced
      cases task with
      | reply target =>
        exact ⟨popped.setStage (by rw [show s.stage target = _ from (sound.stage_of_reply queue).1]; rfl) .lost,
          rfl, rfl⟩
      | untrack target =>
        exact ⟨popped.setStage (by rw [show s.stage target = _ from (sound.stage_of_untrack queue).1]; rfl) .lost,
          rfl, rfl⟩
    next => cases moved
  | endReply =>
    simp only [step] at moved
    split at moved
    next target rest stack =>
      obtain ⟨-, moved⟩ := Option.ite_none_right_eq_some.mp moved
      cases moved
      have popped : ({ s with frames := rest }).Silenced id := silenced
      have settles := sound.settles (.inl (sound.stage_of_frame stack).1)
      exact popped.settle settles.1 settles.2
    next => cases moved

theorem silenced_run {s t : CancelableTaskTracker} {id : Nat} (sound : s.Sound) (silenced : s.Silenced id)
    (later : Reaches step (fun _ _ => True) s t) : Quiet s t id := by
  have all : t.Sound ∧ t.Silenced id ∧ Quiet s t id := by
    refine Reaches.invariant (fun u => u.Sound ∧ u.Silenced id ∧ Quiet s u id) ⟨sound, silenced, rfl, rfl⟩ ?_ later
    intro before action after holds _ moved
    have next := silenced_step holds.1 holds.2.1 moved
    exact ⟨step_sound holds.1 moved, next.1, next.2.1.trans holds.2.2.1, next.2.2.trans holds.2.2.2⟩
  exact all.2.2

/-- An id that is not in the map of a tracker whose thread is free has nothing left to start. -/
theorem CancelableTaskTracker.Sound.dead_of_untracked {s : CancelableTaskTracker} {id : Nat} (sound : s.Sound)
    (alive : s.alive = true) (free : s.originFree = true) (absent : id ∉ s.taskFlags) :
    (s.stage id).live = false := by
  have counted : s.taskFlags.count id = if s.alive && (s.stage id).live && !(s.view id).posting then 1 else 0 :=
    (sound.legal id).tracked
  rw [List.count_eq_zero.mpr absent, alive, view_posting_of_free free] at counted
  by_contra live
  rw [Bool.not_eq_false] at live
  rw [live] at counted
  exact absurd counted (by decide)

/-- Raising every flag of the map silences every id that was given out. -/
theorem raiseAll_silences {s : CancelableTaskTracker} {id : Nat} (sound : s.Sound) (alive : s.alive = true)
    (free : s.originFree = true) (issued : id < s.nextId) (ids : List Nat) (tracked : ∀ other ∈ ids, other ∈ s.taskFlags)
    (covered : id ∈ s.taskFlags → id ∈ ids) : (ids.foldl raise s).Silenced id := by
  have all := raiseAll_flag ids s id
  refine ⟨by rw [all.2.1]; exact issued, fun live => ?_⟩
  rw [all.1] at live
  by_cases member : id ∈ s.taskFlags
  · exact raiseAll_raised sound (fun other listed => sound.live_of_tracked (tracked other listed)) (covered member)
  · rw [sound.dead_of_untracked alive free member] at live
    exact absurd live Bool.false_ne_true

theorem cancel_silences {s t : CancelableTaskTracker} {action : Action} {id : Nat} (sound : s.Sound)
    (cancels : action.Cancels id) (issued : id < s.nextId) (moved : step s action = some t) : t.Silenced id := by
  rcases cancels with rfl | rfl | rfl
  · simp only [step, Option.ite_none_right_eq_some, Bool.and_eq_true, Option.some.injEq] at moved
    obtain ⟨⟨alive, free⟩, rfl⟩ := moved
    split
    next member =>
      have only : ∀ other ∈ [id], other ∈ s.taskFlags := by
        intro other listed
        rwa [List.mem_singleton.mp listed]
      exact raiseAll_silences sound alive free issued [id] only fun _ => List.mem_singleton_self id
    next absent => exact raiseAll_silences sound alive free issued [] (by simp) fun member => absurd member absent
  · simp only [step, Option.ite_none_right_eq_some, Bool.and_eq_true, Option.some.injEq] at moved
    obtain ⟨⟨alive, free⟩, rfl⟩ := moved
    exact raiseAll_silences sound alive free issued s.taskFlags (fun _ member => member) fun member => member
  · simp only [step, Option.ite_none_right_eq_some, Bool.and_eq_true, Option.some.injEq] at moved
    obtain ⟨⟨alive, free⟩, rfl⟩ := moved
    exact raiseAll_silences sound alive free issued s.taskFlags (fun _ member => member) fun member => member

section Tracking
variable {s : CancelableTaskTracker} {id : Nat}

theorem CancelableTaskTracker.Sound.issued (sound : s.Sound) (returned : id ∈ s.returned) : id < s.nextId := by
  have counted : s.returned.count id = if s.stage id ≠ .none ∧ (s.view id).posting = false then 1 else 0 :=
    (sound.legal id).returned
  have positive := List.count_pos_iff.mpr returned
  by_contra late
  rw [counted, if_neg (fun both => both.1 (sound.fresh id (Nat.le_of_not_lt late)).1)] at positive
  exact Nat.lt_irrefl 0 positive

/-- The map holds what was returned and has not settled. -/
theorem CancelableTaskTracker.Sound.tracked_iff (sound : s.Sound) (alive : s.alive = true) :
    id ∈ s.taskFlags ↔ id ∈ s.returned ∧ id ∉ s.settled := by
  have legal := sound.legal id
  have tracked : s.taskFlags.count id = _ := legal.tracked
  have returned : s.returned.count id = _ := legal.returned
  have settled : s.settled.count id = _ := legal.settled
  rw [← List.count_pos_iff, ← List.count_pos_iff, ← List.count_pos_iff, tracked, returned, settled, alive]
  cases (s.view id).stage <;> cases (s.view id).posting <;> simp [Stage.live]

theorem CancelableTaskTracker.Sound.hasTrackedTasks_iff (sound : s.Sound) (alive : s.alive = true) :
    s.hasTrackedTasks = false ↔ ∀ id ∈ s.returned, id ∈ s.settled := by
  rw [hasTrackedTasks, Bool.not_eq_false', List.isEmpty_iff, List.eq_nil_iff_forall_not_mem]
  constructor
  · intro empty id returned
    by_contra open'
    exact empty id ((sound.tracked_iff alive).mpr ⟨returned, open'⟩)
  · intro all id member
    have both := (sound.tracked_iff alive).mp member
    exact both.2 (all id both.1)

theorem CancelableTaskTracker.Sound.erased_once (sound : s.Sound) :
    (∀ entry ∈ s.erased, entry.2 = true) ∧ (s.erased.map Prod.fst).Nodup := by
  have found : ∀ entry ∈ s.erased, entry.2 = true := by
    intro entry member
    have missed : s.erased.count (entry.1, false) = 0 := (sound.legal entry.1).missed
    by_contra lost
    rw [Bool.not_eq_true] at lost
    exact List.count_eq_zero.mp missed (by rw [← lost]; exact member)
  refine ⟨found, List.nodup_iff_count.mpr fun id => ?_⟩
  have erased : s.erased.count (id, true) ≤ (s.view id).settled := (sound.legal id).erased
  have settled : (s.view id).settled ≤ 1 := by
    rw [(sound.legal id).settled]
    split <;> decide
  have same : (s.erased.map Prod.fst).count id = s.erased.count (id, true) := by
    rw [List.count_eq_countP, List.countP_map, List.count_eq_countP]
    apply List.countP_congr
    intro entry member
    have true' := found entry member
    simp [Prod.ext_iff, true']
  omega

end Tracking

/-- Whatever the threads do in whatever order: a cancellation that has returned is final for the body and the
reply of an id that was given out; the map holds an id exactly until its reply or `untrack` step has run; and no
id is untracked twice. -/
theorem tracker_correct {s : CancelableTaskTracker} (reachable : Reachable s) :
    (∀ action t u id, action.Cancels id → id ∈ s.returned → step s action = some t →
      Reaches step (fun _ _ => True) t u → Quiet t u id) ∧
    (s.alive = true → ∀ id, id ∈ s.taskFlags ↔ id ∈ s.returned ∧ id ∉ s.settled) ∧
    (s.alive = true → (s.hasTrackedTasks = false ↔ ∀ id ∈ s.returned, id ∈ s.settled)) ∧
    (∀ entry ∈ s.erased, entry.2 = true) ∧ (s.erased.map Prod.fst).Nodup := by
  have sound := reachable.sound
  refine ⟨fun action t u id cancels returned moved later => ?_, fun alive id => sound.tracked_iff alive,
    sound.hasTrackedTasks_iff, sound.erased_once⟩
  exact silenced_run (step_sound sound moved) (cancel_silences sound cancels (sound.issued returned) moved) later

/-- The state after a run from another one. -/
def afterwards (s : CancelableTaskTracker) (actions : List Action) : CancelableTaskTracker :=
  (runFrom step (fun _ _ => True) s actions).getD {}

/-- A task that has started before the call that posted it returned. -/
def started : CancelableTaskTracker := afterwards {} [.postTaskAndReply true, .startTask 1, .track]

theorem tracker_correct_started :
    Quiet (afterwards started [.tryCancel 1])
        (afterwards (afterwards started [.tryCancel 1]) [.endTask 1 true, .runOrigin]) 1 ∧
      started.hasTrackedTasks = true := by
  have ran : runFrom step (fun _ _ => True) {} [.postTaskAndReply true, .startTask 1, .track] = some started := rfl
  have later : runFrom step (fun _ _ => True) (afterwards started [.tryCancel 1]) [.endTask 1 true, .runOrigin] =
      some (afterwards (afterwards started [.tryCancel 1]) [.endTask 1 true, .runOrigin]) := rfl
  have reachable : Reachable started := Reaches.start.run ran
  exact ⟨(tracker_correct reachable).1 (.tryCancel 1) _ _ 1 (.inl rfl) (by decide) rfl (Reaches.start.run later),
    by decide⟩

end Libchrome.Base.Task
