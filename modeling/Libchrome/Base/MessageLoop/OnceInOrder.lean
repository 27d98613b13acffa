import Libchrome.Base.MessageLoop.TaskFates

/-!
# The starts and the end of a loop

A start is due and in order. Of the tasks accepted, the destructor leaves only those posted after the
incoming queue was last emptied.
-/

namespace Libchrome.Base.MessageLoop.Delegate

open Library

variable {Closure : Type}

section Moves

variable {b c : Books Closure} {accepted : Bool}

theorem Sorted.known (sorted : Sorted b) {recent : Int} (known : Known b recent) : recent ≤ b.now := by
  rcases known with rfl | rfl | rfl
  · exact sorted.clock
  · exact sorted.recent
  · exact Int.le_refl _

/-- A start that is due, and behind the immediate tasks started before it. -/
theorem Sorted.start (sorted : Sorted b) (start : Start Closure)
    (due : start.task.delayedRunTime ≤ start.time ∧ (start.task.nestable = false → start.runDepth = 1))
    (behind : Immediate start.task → ∀ task ∈ b.started.map (·.task), task.task.position < start.task.task.position)
    (kept : c = { b with
      work := c.work
      delayed := c.delayed
      deferred := c.deferred
      started := b.started ++ [start]
      recentTime := c.recentTime })
    (recent : c.recentTime ≤ b.now)
    (delayed : c.delayed.Sublist b.delayed) (deferred : c.deferred.Sublist b.deferred) : Sorted c := by
  rw [kept]
  refine ⟨sorted.clock, recent, sorted.sooner.sublist delayed, fun task member => sorted.delayed task (delayed.subset member),
    fun task member => sorted.deferred task (deferred.subset member), fun other member => ?_, ?_⟩
  · rcases List.mem_append.mp member with old | new
    · exact sorted.due other old
    · rw [List.mem_singleton.mp new]
      exact due
  · refine List.pairwise_append.mpr ⟨sorted.inOrder, List.pairwise_singleton _ _, fun first member other new => ?_⟩
    rw [List.mem_singleton.mp new]
    exact fun _ immediate => behind immediate first.task (List.mem_map_of_mem member)

/-- Tasks that are deferred or destroyed leave the queues sorted. -/
theorem Sorted.shrink (sorted : Sorted b)
    (kept : c = { b with
      incoming := c.incoming
      work := c.work
      delayed := c.delayed
      deferred := c.deferred
      destroyed := c.destroyed
      recentTime := c.recentTime })
    (recent : c.recentTime ≤ b.now) (delayed : c.delayed.Sublist b.delayed)
    (deferred : ∀ task ∈ c.deferred, task ∈ b.deferred ∨ task.nestable = false ∧ task.delayedRunTime ≤ b.now) :
    Sorted c := by
  rw [kept]
  refine ⟨sorted.clock, recent, sorted.sooner.sublist delayed, fun task member => sorted.delayed task (delayed.subset member),
    fun task member => ?_, sorted.due, sorted.inOrder⟩
  rcases deferred task member with old | new
  · exact sorted.deferred task old
  · exact new

theorem mem_deferred {task pending : Task Closure} {deferred : List (Task Closure)}
    (fits : pending.nestable = false ∧ pending.delayedRunTime ≤ b.now) (member : task ∈ deferred ++ [pending]) :
    task ∈ deferred ∨ task.nestable = false ∧ task.delayedRunTime ≤ b.now := by
  rcases List.mem_append.mp member with old | new
  · exact .inl old
  · rw [List.mem_singleton.mp new]
    exact .inr fits

theorem Moved.sorted (moved : Moved b accepted c) (accounted : Accounted b) (lined : Lined b) (sorted : Sorted b) :
    Sorted c := by
  cases moved with
  | still | post | reload =>
    exact ⟨sorted.clock, sorted.recent, sorted.sooner, sorted.delayed, sorted.deferred, sorted.due, sorted.inOrder⟩
  | tick later passes =>
    refine ⟨Int.le_trans sorted.clock passes, Int.le_trans sorted.recent passes, sorted.sooner, sorted.delayed, fun task member => ?_, sorted.due,
      sorted.inOrder⟩
    exact ⟨(sorted.deferred task member).1, Int.le_trans (sorted.deferred task member).2 passes⟩
  | delay pending rest front late =>
    have first : pending ∈ b.work := by simp [front]
    refine ⟨sorted.clock, sorted.recent, push_sooner sorted.sooner ?_ ?_ ?_, fun task member => ?_, sorted.deferred, sorted.due,
      sorted.inOrder⟩
    · intro task member
      apply accounted.number
      simp only [List.mem_cons] at member
      simp only [Books.waiting, List.mem_append]
      rcases member with rfl | member
      · exact .inr (.inr (.inl first))
      · exact .inr (.inl member)
    · intro task member
      apply lined.near
      · simp [Books.waiting, member]
      · simp [Books.waiting, first]
    · exact fun task member => lined.taken task (.inr (.inr member)) pending (.inl first)
    · rcases mem_push.mp member with rfl | member
      · exact late
      · exact sorted.delayed task member
  | startWork pending rest depth front now allowed =>
    have first : pending ∈ b.work := by simp [front]
    apply sorted.start ⟨pending, b.now, depth⟩
    · refine ⟨?_, fun waits => allowed.resolve_left (Bool.eq_false_iff.mp waits)⟩
      rw [now]
      exact sorted.clock
    · exact fun _ task member => lined.taken task (.inl member) pending (.inl first)
    · rfl
    · exact sorted.recent
    · exact List.Sublist.refl _
    · exact List.Sublist.refl _
  | look recent known =>
    exact ⟨sorted.clock, sorted.known known, sorted.sooner, sorted.delayed, sorted.deferred, sorted.due,
      sorted.inOrder⟩
  | startDelayed pending rest depth recent front known ripe allowed =>
    apply sorted.start ⟨pending, b.now, depth⟩
    · exact ⟨Int.le_trans ripe (sorted.known known), fun waits => allowed.resolve_left (Bool.eq_false_iff.mp waits)⟩
    · exact fun immediate => absurd immediate.2 (sorted.delayed pending (by simp [front]))
    · rfl
    · exact sorted.known known
    · rw [front]
      exact List.sublist_cons_self _ _
    · exact List.Sublist.refl _
  | startDeferred pending rest front =>
    have known := sorted.deferred pending (by simp [front])
    apply sorted.start ⟨pending, b.now, 1⟩
    · exact ⟨known.2, fun _ => rfl⟩
    · intro immediate
      have nestable : pending.nestable = true := immediate.1
      rw [known.1] at nestable
      cases nestable
    · rfl
    · exact sorted.recent
    · exact List.Sublist.refl _
    · rw [front]
      exact List.sublist_cons_self _ _
  | deferWork pending rest front now waits =>
    apply sorted.shrink
    · rfl
    · exact sorted.recent
    · exact List.Sublist.refl _
    · exact fun task member => mem_deferred ⟨waits, now ▸ sorted.clock⟩ member
  | deferDelayed pending rest recent front known ripe waits =>
    apply sorted.shrink
    · rfl
    · exact sorted.known known
    · rw [front]
      exact List.sublist_cons_self _ _
    · exact fun task member => mem_deferred ⟨waits, Int.le_trans ripe (sorted.known known)⟩ member
  | destroyDeferred pending rest front =>
    apply sorted.shrink
    · rfl
    · exact sorted.recent
    · exact List.Sublist.refl _
    · intro task member
      rw [front]
      exact .inl (List.mem_cons_of_mem _ member)
  | destroyDelayed pending rest front =>
    apply sorted.shrink
    · rfl
    · exact sorted.recent
    · rw [front]
      exact List.sublist_cons_self _ _
    · exact fun _ member => .inl member
  | destroyMembers =>
    apply sorted.shrink
    · rfl
    · exact sorted.recent
    · exact List.nil_sublist _
    · exact fun _ member => (List.not_mem_nil member).elim
  | destroyWork | destroyIncoming =>
    exact ⟨sorted.clock, sorted.recent, sorted.sooner, sorted.delayed, sorted.deferred, sorted.due, sorted.inOrder⟩

end Moves

/-- What the destructor has made of the tasks accepted before it began. -/
def Promises (s : State Closure) : Destruction → Prop
  | .deletePendingTasks 0 false .work _ => True
  | .deletePendingTasks 0 false _ _ | .reloadWorkQueue 0 => s.workQueue = [] ∨ s.begun ≤ s.reloaded
  | _ => s.begun ≤ s.reloaded

/-- The stages of the destructor, and the end of the loop. -/
structure Ending (s : State Closure) : Prop where
  dead : s.messageLoop = false → s.frames = [.destructor .members] ∨ s.frames = [.destructor .gone]
  past : .destructor .members ∈ s.frames ∨ .destructor .gone ∈ s.frames → s.messageLoop = false
  gone : s.frames = [.destructor .gone] →
    s.workQueue = [] ∧ s.delayedWorkQueue = [] ∧ s.deferredNonNestableWorkQueue = []
  begun : s.begun ≤ s.posted.length
  promises : ∀ position, .destructor position ∈ s.frames → Promises s position

/-- A step that leaves the destructor where it is. -/
structure Outside (s t : State Closure) : Prop where
  messageLoop : t.messageLoop = s.messageLoop
  begun : t.begun = s.begun
  frames : ∀ position, .destructor position ∈ t.frames → .destructor position ∈ s.frames

section Steps

variable {s t : State Closure}

theorem Moved.reloads {b c : Books Closure} {accepted : Bool} (moved : Moved b accepted c) (earlier : b.reloaded ≤ b.posted.length) :
    b.reloaded ≤ c.reloaded ∧ b.posted.length ≤ c.posted.length ∧
      (b.work = [] → c.work = [] ∨ b.posted.length ≤ c.reloaded) := by
  cases moved with
  | reload empty => exact ⟨earlier, Nat.le_refl _, fun _ => .inr (Nat.le_refl _)⟩
  | post => exact ⟨Nat.le_refl _, by simp, .inl⟩
  | delay pending rest front | startWork pending rest depth front | deferWork pending rest front
  | destroyWork pending rest front =>
    exact ⟨Nat.le_refl _, Nat.le_refl _, fun empty => by simp [front] at empty⟩
  | still | tick | look | startDelayed | deferDelayed | startDeferred | destroyDeferred | destroyDelayed
  | destroyIncoming => exact ⟨Nat.le_refl _, Nat.le_refl _, .inl⟩
  | destroyMembers => exact ⟨Nat.le_refl _, Nat.le_refl _, fun _ => .inl rfl⟩

theorem deferOrRunPendingTask_outside (s : State Closure) (pending : Task Closure) :
    Outside s (deferOrRunPendingTask s pending) := by
  unfold deferOrRunPendingTask
  split
  · exact ⟨rfl, rfl, fun position member => by simpa [runTask] using member⟩
  · exact ⟨rfl, rfl, fun _ member => member⟩

theorem drain_outside {turn : Turn} {callers : List Frame} (frames : s.frames = .doWork turn :: callers) :
    Outside s (drain s callers) := by
  unfold drain
  split
  · exact ⟨rfl, rfl, fun position member => by simpa [frames] using member⟩
  · split
    · exact ⟨rfl, rfl, fun _ member => member⟩
    · obtain ⟨messageLoop, begun, kept⟩ := deferOrRunPendingTask_outside { s with workQueue := _ } _
      exact ⟨messageLoop, begun, kept⟩

theorem reload_outside {turn : Turn} {callers : List Frame} (frames : s.frames = .doWork turn :: callers) :
    Outside s (reload s callers) := by
  have same : (reloadWorkQueue s).messageLoop = s.messageLoop ∧ (reloadWorkQueue s).begun = s.begun := by
    unfold reloadWorkQueue
    split <;> exact ⟨rfl, rfl⟩
  refine ⟨same.1, same.2, fun position member => ?_⟩
  unfold reload at member
  dsimp only at member
  rw [frames]
  split at member
  · exact List.mem_cons_of_mem _ member
  · simpa using member

theorem doDelayedWork_outside (s : State Closure) : Outside s (doDelayedWork s) := by
  unfold doDelayedWork
  split
  · dsimp only
    generalize (if _ > s.recentTime then s.now else s.recentTime) = recent
    split
    · exact ⟨rfl, rfl, fun _ member => member⟩
    · obtain ⟨messageLoop, begun, kept⟩ := deferOrRunPendingTask_outside
        { s with recentTime := recent, delayedWorkQueue := _ } _
      exact ⟨messageLoop, begun, kept⟩
  · exact ⟨rfl, rfl, fun _ member => member⟩

theorem doIdleWork_outside (s : State Closure) : Outside s (doIdleWork s) := by
  unfold doIdleWork
  split
  · exact ⟨rfl, rfl, fun position member => by simpa [runTask] using member⟩
  · exact ⟨rfl, rfl, fun _ member => member⟩

variable {action : Action Closure}

theorem step_destructor (moved : step s action = some t) :
    (∃ position, s.frames = [.destructor position] ∧ destruct s position = some t) ∨
    (s.frames = [] ∧ t = { beginDeletePendingTasks s 0 false with begun := s.posted.length }) ∨ Outside s t := by
  cases action with
  | advance =>
    simp only [step] at moved
    split at moved
    next callers frames =>
      cases moved
      exact .inr (.inr (reload_outside frames))
    next callers frames =>
      cases moved
      exact .inr (.inr (drain_outside frames))
    next position frames => exact .inl ⟨position, frames, moved⟩
    next => cases moved
  | destroy =>
    simp only [step, Option.ite_none_right_eq_some, Option.some.injEq] at moved
    exact .inr (.inl ⟨moved.1, moved.2.symm⟩)
  | addToIncomingQueue closure delay nestable =>
    cases moved
    unfold addToIncomingQueue
    split <;> exact .inr (.inr ⟨rfl, rfl, fun _ member => member⟩)
  | doDelayedWork =>
    obtain ⟨_, rfl⟩ := Library.of_guarded moved
    exact .inr (.inr (doDelayedWork_outside s))
  | doIdleWork =>
    obtain ⟨_, rfl⟩ := Library.of_guarded moved
    exact .inr (.inr (doIdleWork_outside s))
  | leave =>
    simp only [step] at moved
    split at moved
    next callers frames =>
      cases moved
      exact .inr (.inr ⟨rfl, rfl, fun position member => by simp [frames, member]⟩)
    next => cases moved
  | finishTask =>
    simp only [step] at moved
    split at moved
    next turn callers frames =>
      cases moved
      exact .inr (.inr ⟨rfl, rfl, fun position member => by simp [frames, member]⟩)
    next callers _ frames =>
      cases moved
      exact .inr (.inr ⟨rfl, rfl, fun position member => by simp [frames, member]⟩)
    next => cases moved
  | releaseIncomingQueue =>
    simp only [step] at moved
    split at moved
    · cases moved
    · cases moved
      exact .inr (.inr ⟨rfl, rfl, fun _ member => member⟩)
  | run =>
    obtain ⟨_, rfl⟩ := Library.of_guarded moved
    exact .inr (.inr ⟨rfl, rfl, fun position member => by simpa using member⟩)
  | doWork =>
    obtain ⟨_, rfl⟩ := Library.of_guarded moved
    refine .inr (.inr ⟨rfl, rfl, fun position member => ?_⟩)
    dsimp only at member
    split at member
    · simpa using member
    · exact member
  | tick | setNestableTasksAllowed =>
    obtain ⟨_, rfl⟩ := Library.of_guarded moved
    exact .inr (.inr ⟨rfl, rfl, fun _ member => member⟩)

theorem promises_of_le (kept : s.begun ≤ s.reloaded) (position : Destruction) : Promises s position := by
  unfold Promises
  split
  · trivial
  · exact .inr kept
  · exact .inr kept
  · exact kept

variable {didWork : Bool}

theorem promises_of_first (kept : s.workQueue = [] ∨ s.begun ≤ s.reloaded) {stage : Stage} :
    Promises s (.deletePendingTasks 0 false stage didWork) := by
  cases stage
  · trivial
  · exact kept
  · exact kept

variable {position : Destruction}

theorem Promises.mono (promise : Promises s position) (begun : t.begun = s.begun) (reloaded : s.reloaded ≤ t.reloaded)
    (accepted : s.begun ≤ s.posted.length)
    (empty : s.workQueue = [] → t.workQueue = [] ∨ s.posted.length ≤ t.reloaded) : Promises t position := by
  have passes : s.workQueue = [] ∨ s.begun ≤ s.reloaded → t.workQueue = [] ∨ t.begun ≤ t.reloaded := by
    rintro (none_ | kept)
    · exact (empty none_).imp_right fun all => by omega
    · exact .inr (by omega)
  unfold Promises at promise ⊢
  split at promise
  · trivial
  · exact passes promise
  · exact passes promise
  · omega

theorem reloadWorkQueue_kept (accepted : s.begun ≤ s.posted.length)
    (promise : s.workQueue = [] ∨ s.begun ≤ s.reloaded) :
    (reloadWorkQueue s).begun ≤ (reloadWorkQueue s).reloaded := by
  unfold reloadWorkQueue
  split
  next => exact accepted
  next full =>
    rcases promise with empty | kept
    · exact (full (List.isEmpty_iff.mpr empty)).elim
    · exact kept

variable {round : Nat} {reloaded : Bool}

/-- Past the first call of `DeletePendingTasks` the incoming queue has been emptied. -/
theorem Promises.le {stage : Stage} (promise : Promises s (.deletePendingTasks round reloaded stage didWork))
    (past : round ≠ 0 ∨ reloaded = true) : s.begun ≤ s.reloaded := by
  cases round with
  | zero =>
    cases reloaded with
    | false => simp at past
    | true => exact promise
  | succ round => exact promise

/-- A stage of `DeletePendingTasks` takes over the promise of another one, if the work queue is empty
where that one was to empty it. -/
theorem Promises.stage {stage next : Stage} {didWork' : Bool}
    (promise : Promises s (.deletePendingTasks round reloaded stage didWork))
    (empty : stage = .work → next = .work ∨ t.workQueue = []) (work : stage ≠ .work → t.workQueue = s.workQueue)
    (begun : t.begun = s.begun) (kept : t.reloaded = s.reloaded) :
    Promises t (.deletePendingTasks round reloaded next didWork') := by
  by_cases past : round ≠ 0 ∨ reloaded = true
  · apply promises_of_le
    have := promise.le past
    omega
  · obtain ⟨rfl, rfl⟩ : round = 0 ∧ reloaded = false := by simpa using past
    cases stage with
    | work =>
      rcases empty rfl with rfl | none_
      · trivial
      · exact promises_of_first (.inl none_)
    | deferred | delayed =>
      apply promises_of_first
      rw [work (by simp), begun, kept]
      exact promise

theorem endDeletePendingTasks_promises (promise : Promises s (.deletePendingTasks round reloaded .delayed didWork)) :
    ∃ position, (endDeletePendingTasks s round reloaded didWork).frames = [.destructor position] ∧
      position ≠ .members ∧ position ≠ .gone ∧
      Promises (endDeletePendingTasks s round reloaded didWork) position := by
  unfold endDeletePendingTasks beginDeletePendingTasks
  cases reloaded with
  | true =>
    have kept : s.begun ≤ s.reloaded := promise.le (.inr rfl)
    simp only [if_true]
    split
    · refine ⟨_, rfl, by simp, by simp, ?_⟩
      apply promises_of_le
      exact kept
    · refine ⟨_, rfl, by simp, by simp, ?_⟩
      apply promises_of_le
      exact kept
  | false =>
    refine ⟨.reloadWorkQueue round, rfl, by simp, by simp, ?_⟩
    cases round with
    | zero => exact promise
    | succ round => exact promise

/-- A turn of `DeletePendingTasks` stays in it or ends it, with the promise of the stage it comes to. -/
theorem deletePendingTasks_promises {stage : Stage}
    (frames : s.frames = [.destructor (.deletePendingTasks round reloaded stage didWork)])
    (promise : Promises s (.deletePendingTasks round reloaded stage didWork)) :
    ∃ position, (deletePendingTasks s round reloaded stage didWork).frames = [.destructor position] ∧
      position ≠ .members ∧ position ≠ .gone ∧
      Promises (deletePendingTasks s round reloaded stage didWork) position := by
  unfold deletePendingTasks
  cases stage with
  | work =>
    cases front : s.workQueue with
    | nil => exact ⟨_, rfl, by simp, by simp, promise.stage (fun _ => .inr rfl) (by simp) rfl rfl⟩
    | cons pending rest =>
      dsimp only
      split
      · exact ⟨_, frames, by simp, by simp, promise.stage (fun _ => .inl rfl) (by simp) rfl rfl⟩
      · exact ⟨_, frames, by simp, by simp, promise.stage (fun _ => .inl rfl) (by simp) rfl rfl⟩
  | deferred =>
    cases s.deferredNonNestableWorkQueue with
    | nil => exact ⟨_, rfl, by simp, by simp, promise.stage (by simp) (fun _ => rfl) rfl rfl⟩
    | cons pending rest => exact ⟨_, frames, by simp, by simp, promise.stage (by simp) (fun _ => rfl) rfl rfl⟩
  | delayed =>
    cases s.delayedWorkQueue with
    | nil => exact endDeletePendingTasks_promises promise
    | cons pending rest => exact ⟨_, frames, by simp, by simp, promise.stage (by simp) (fun _ => rfl) rfl rfl⟩

theorem deletePendingTasks_same (s : State Closure) (round : Nat) (reloaded : Bool) (stage : Stage)
    (didWork : Bool) : (deletePendingTasks s round reloaded stage didWork).messageLoop = s.messageLoop ∧
      (deletePendingTasks s round reloaded stage didWork).begun = s.begun ∧
      (deletePendingTasks s round reloaded stage didWork).posted = s.posted := by
  unfold deletePendingTasks endDeletePendingTasks beginDeletePendingTasks
  cases stage
  all_goals
    dsimp only
    split
  all_goals
    first
      | exact ⟨rfl, rfl, rfl⟩
      | (split <;> first | exact ⟨rfl, rfl, rfl⟩ | (split <;> exact ⟨rfl, rfl, rfl⟩))

theorem Ending.destruct (ending : Ending s) (frames : s.frames = [.destructor position])
    (moved : destruct s position = some t) : Ending t := by
  have promise := ending.promises position (by simp [frames])
  cases position with
  | deletePendingTasks round reloaded stage didWork =>
    cases moved
    obtain ⟨next, stands, notMembers, notGone, kept⟩ := deletePendingTasks_promises frames promise
    obtain ⟨messageLoop, begun, posted⟩ := deletePendingTasks_same s round reloaded stage didWork
    refine ⟨fun dead => ?_, fun past => ?_, fun gone => ?_, ?_, fun other member => ?_⟩
    · have old := ending.dead (messageLoop ▸ dead)
      simp [frames] at old
    · rw [stands] at past
      simp [Ne.symm notMembers, Ne.symm notGone] at past
    · rw [stands] at gone
      simp [notGone] at gone
    · rw [begun, posted]
      exact ending.begun
    · rw [stands] at member
      simp only [List.mem_singleton, Frame.destructor.injEq] at member
      rw [member]
      exact kept
  | reloadWorkQueue round =>
    cases moved
    have waits : s.workQueue = [] ∨ s.begun ≤ s.reloaded := by
      cases round with
      | zero => exact promise
      | succ round => exact .inr promise
    have kept := reloadWorkQueue_kept ending.begun waits
    obtain ⟨messageLoop, begun, posted⟩ : (reloadWorkQueue s).messageLoop = s.messageLoop ∧
        (reloadWorkQueue s).begun = s.begun ∧ (reloadWorkQueue s).posted = s.posted := by
      unfold reloadWorkQueue
      split <;> exact ⟨rfl, rfl, rfl⟩
    unfold beginDeletePendingTasks
    refine ⟨fun dead => ?_, by simp, by simp, ?_, fun other _ => ?_⟩
    · have old := ending.dead (messageLoop ▸ dead)
      simp [frames] at old
    · dsimp only
      rw [begun, posted]
      exact ending.begun
    · apply promises_of_le
      exact kept
  | willDestroyCurrentMessageLoop =>
    cases moved
    refine ⟨fun _ => .inl rfl, fun _ => rfl, by simp, ending.begun, fun other _ => ?_⟩
    apply promises_of_le
    exact promise
  | members =>
    cases moved
    have dead : s.messageLoop = false := ending.past (.inl (by simp [frames]))
    refine ⟨fun _ => .inr rfl, fun _ => dead, fun _ => ⟨rfl, rfl, rfl⟩, ending.begun, fun other _ => ?_⟩
    apply promises_of_le
    exact promise
  | gone => cases moved

theorem step_over (frames : s.frames = [.destructor position]) (dead : s.messageLoop = false)
    (moved : step s action = some t) :
    destruct s position = some t ∨ (t.frames = s.frames ∧ t.messageLoop = false ∧ t.workQueue = s.workQueue ∧
      t.delayedWorkQueue = s.delayedWorkQueue ∧
      t.deferredNonNestableWorkQueue = s.deferredNonNestableWorkQueue) := by
  cases action with
  | advance =>
    simp only [step, frames] at moved
    exact .inl moved
  | addToIncomingQueue closure delay nestable =>
    cases moved
    rw [addToIncomingQueue, if_neg (by simp [dead])]
    exact .inr ⟨rfl, dead, rfl, rfl, rfl⟩
  | tick later | setNestableTasksAllowed allowed =>
    obtain ⟨_, rfl⟩ := Library.of_guarded moved
    exact .inr ⟨rfl, dead, rfl, rfl, rfl⟩
  | releaseIncomingQueue =>
    rw [step, if_neg (by simp [dead])] at moved
    cases moved
    exact .inr ⟨rfl, dead, rfl, rfl, rfl⟩
  | run | leave | doWork | doDelayedWork | doIdleWork | finishTask | destroy =>
    simp [step, frames, dead, runDepth] at moved

/-- The tasks that the dead loop has left wait in the incoming queue, posted after it was last emptied. -/
theorem Ending.step (ending : Ending s) (lined : Lined s.books) (moved : step s action = some t) : Ending t := by
  rcases step_destructor moved with ⟨position, frames, went⟩ | ⟨empty, rfl⟩ | outside
  · exact ending.destruct frames went
  · refine ⟨fun dead => ?_, by simp [beginDeletePendingTasks], by simp [beginDeletePendingTasks],
      Nat.le_refl _, fun position member => ?_⟩
    · have old := ending.dead dead
      simp [empty] at old
    · simp only [beginDeletePendingTasks, List.mem_singleton, Frame.destructor.injEq] at member
      rw [member]
      trivial
  · have reloads := (step_moved moved).reloads lined.earlier
    have promises : ∀ position, .destructor position ∈ t.frames → Promises t position := fun position member =>
      (ending.promises position (outside.frames position member)).mono outside.begun reloads.1 ending.begun
        reloads.2.2
    have begun : t.begun ≤ t.posted.length := by
      rw [outside.begun]
      exact Nat.le_trans ending.begun reloads.2.1
    have still : ∀ position, s.frames = [.destructor position] → s.messageLoop = false → Ending t := by
      intro position frames dead
      rcases step_over frames dead moved with went | ⟨same, dead', work, delayed, deferred⟩
      · exact ending.destruct frames went
      · refine ⟨fun _ => same ▸ ending.dead dead, fun _ => dead', fun gone => ?_, begun, promises⟩
        rw [work, delayed, deferred]
        exact ending.gone (same ▸ gone)
    by_cases dead : s.messageLoop = false
    · rcases ending.dead dead with frames | frames
      · exact still _ frames dead
      · exact still _ frames dead
    · refine ⟨fun dead' => (dead (outside.messageLoop ▸ dead')).elim, fun past => ?_, fun gone => ?_, begun, promises⟩
      · exact (dead (ending.past (past.imp (outside.frames _) (outside.frames _)))).elim
      · exact (dead (ending.past (.inr (outside.frames _ (by simp [gone]))))).elim

end Steps

/-- What holds of every state of a loop. -/
structure Settled (s : State Closure) : Prop where
  accounted : Accounted s.books
  lined : Lined s.books
  sorted : Sorted s.books
  ending : Ending s

theorem settled_initial : Settled ({} : State Closure) where
  accounted := ⟨.nil, rfl, by simp [State.books], by simp [State.books]⟩
  lined := ⟨by simp [Books.waiting, State.books], .nil, by simp [State.books], by simp [State.books], Nat.le_refl _⟩
  sorted := ⟨Int.le_refl _, Int.le_refl _, .nil, by simp [State.books], by simp [State.books],
    by simp [State.books], .nil⟩
  ending := ⟨by simp, by simp, by simp, Nat.le_refl _, by simp⟩

instance (s : State Closure) (action : Action Closure) : Decidable (Windowed s action) :=
  inferInstanceAs (Decidable (_ → ∀ task ∈ s.books.waiting, _))

theorem Settled.step {s t : State Closure} {action : Action Closure} (settled : Settled s)
    (windowed : Windowed s action) (moved : step s action = some t) : Settled t := by
  have moves := step_moved moved
  exact ⟨moves.accounted settled.accounted,
    moves.lined settled.accounted settled.lined windowed,
    moves.sorted settled.accounted settled.lined settled.sorted, settled.ending.step settled.lined moved⟩

theorem settled_of_reaches {s : State Closure} (reached : Reaches step Windowed {} s) : Settled s :=
  reached.invariant Settled settled_initial fun _ _ _ settled windowed moved => settled.step windowed moved

/-- Every task accepted is started, destroyed unrun or waiting, once. Immediate nestable tasks start in
the order of their posts, no task starts before its time, and a task that is not nestable starts at
depth one. `delayed_work_queue_` shows the tasks by time and post. The destructor leaves only tasks in
the incoming queue, accepted after it began and after that queue was last emptied. -/
theorem tasks_run_once_in_order {s : State Closure} (reached : Reaches step Windowed {} s) :
    s.posted.map (·.task.position) = List.range s.posted.length ∧
    (s.started.map (·.task) ++ (s.destroyed ++ s.books.waiting)).Perm s.posted ∧
    (s.started.Pairwise fun first second =>
      Immediate first.task → Immediate second.task → first.task.task.position < second.task.task.position) ∧
    (∀ start ∈ s.started, start.task.delayedRunTime ≤ start.time ∧
      (start.task.nestable = false → start.runDepth = 1)) ∧
    s.delayedWorkQueue.Pairwise Sooner ∧
    (s.frames = [.destructor .gone] → s.books.waiting = s.incomingQueue ∧
      ∀ task ∈ s.incomingQueue, s.begun ≤ task.task.position ∧ s.reloaded ≤ task.task.position) := by
  obtain ⟨accounted, lined, sorted, ending⟩ := settled_of_reaches reached
  refine ⟨accounted.positions, accounted.conserved, sorted.inOrder, sorted.due, sorted.sooner, fun gone => ?_⟩
  obtain ⟨work, delayed, deferred⟩ := ending.gone gone
  refine ⟨by simp [Books.waiting, State.books, work, delayed, deferred], fun task member => ?_⟩
  have kept : s.begun ≤ s.reloaded := ending.promises .gone (by simp [gone])
  have late := lined.reloaded task member
  exact ⟨Nat.le_trans kept late, late⟩

/-- A delayed, an immediate and a non-nestable task are posted; a nested loop runs in the second one. -/
def nestedRun : List (Action Nat) :=
  [.addToIncomingQueue 0 5 true, .addToIncomingQueue 1 0 true, .addToIncomingQueue 2 0 false, .run, .doWork,
    .advance, .advance, .advance, .setNestableTasksAllowed true, .run, .doWork, .advance, .advance, .advance,
    .advance, .leave, .finishTask, .tick 5, .doIdleWork, .finishTask, .doDelayedWork, .finishTask, .leave]

theorem tasks_run_once_in_order_nested : ∃ s : State Nat, s.started.length = 3 ∧
    (s.started.map (·.task) ++ (s.destroyed ++ s.books.waiting)).Perm s.posted := by
  obtain ⟨s, ran, starts⟩ := (Option.any_eq_true _ _).mp (show
    (runFrom step Windowed ({} : State Nat) nestedRun).any (fun s => decide (s.started.length = 3)) = true by
      decide +kernel)
  exact ⟨s, of_decide_eq_true starts, (tasks_run_once_in_order (Reaches.run .start ran)).2.1⟩

/-- A post from another thread, or from an observer of the destruction, after the destructor has emptied
the queues. -/
def lateRun : List (Action Nat) :=
  .destroy :: List.replicate 7 .advance ++ [.addToIncomingQueue 0 0 true, .advance, .advance]

/-- The late task is neither run nor destroyed with the loop. -/
theorem late_task_stays : ¬∀ s : State Nat, Reaches step Windowed {} s → s.frames = [.destructor .gone] →
    (s.started.map (·.task) ++ s.destroyed).Perm s.posted := by
  obtain ⟨s, ran, facts⟩ := (Option.any_eq_true _ _).mp (show
    (runFrom step Windowed ({} : State Nat) lateRun).any (fun s => decide (s.frames = [.destructor .gone] ∧
      s.started.length + s.destroyed.length = 0 ∧ s.posted.length = 1)) = true by decide +kernel)
  obtain ⟨gone, none_, one⟩ := of_decide_eq_true facts
  intro settled
  have same := (settled s (Reaches.run .start ran) gone).length_eq
  simp only [List.length_append, List.length_map] at same
  omega

end Libchrome.Base.MessageLoop.Delegate
