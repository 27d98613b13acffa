import Libchrome.Base.MessageLoop.TaskQueues

/-!
# No wake-up is lost

From the reload that finds the incoming queue empty until its wait ends the loop rests: a task that
arrives then finds the queue empty and the loop unscheduled, so its poster signals the event. The
invariant follows the incoming queue, the flag, the event and the position of the innermost run loop.
-/

namespace Libchrome.Base.MessageLoop

open Library

variable {Closure : Type}

/-- From here the loop waits without looking at the incoming queue again, unless a task runs first. -/
def Position.resting : Position → Bool
  | .doneWork didWork => !didWork
  | .doneDelayedWork didWork => !didWork
  | .doneIdleWork didWork => !didWork
  | .wait => true
  | .waitFor _ => true
  | .blocked _ => true
  | _ => false

/-- `DoIdleWork` has been called and has found nothing to run. -/
def Position.idle : Position → Bool
  | .doneIdleWork didWork => !didWork
  | .wait => true
  | .waitFor _ => true
  | .blocked _ => true
  | _ => false

def Position.isBlocked : Position → Bool
  | .blocked _ => true
  | _ => false

def Position.isRunning : Position → Bool
  | .running _ => true
  | _ => false

/-- The event has been signalled and the signal has not been taken yet. -/
def WaitableEvent.pending (event : WaitableEvent) : Prop :=
  event.signaled = true ∨ event.waiter = some true

instance (event : WaitableEvent) : Decidable event.pending :=
  inferInstanceAs (Decidable (_ ∨ _))

theorem WaitableEvent.signal_pending (event : WaitableEvent) : event.signal.pending := by
  unfold signal pending
  split
  next signaled => exact .inl signaled
  next =>
    split
    · exact .inr rfl
    · exact .inl rfl

theorem WaitableEvent.signal_waiter (event : WaitableEvent) :
    event.signal.waiter = none ↔ event.waiter = none := by
  unfold signal
  split
  · exact Iff.rfl
  · split
    next fired => simp [fired]
    next => exact Iff.rfl

/-- What may have arrived is announced: nothing has, or a poster is about to signal, or the signal
is there. -/
def Announced (s : State Closure) : Prop :=
  (s.incomingQueue = [] ∧ s.messageLoopScheduled = false ∧ s.incomingQueueLock = none) ∨
    (∃ holder, s.incomingQueueLock = some (holder, .signal)) ∨ s.event.pending

/-- The invariant of the wake-ups, where the innermost run loop stands at `position`. -/
structure Restful (s : State Closure) (position : Position) : Prop where
  announced : position.resting = true → s.workQueue = [] ∧ Announced s
  waiter : position.isBlocked = false → s.event.waiter = none
  idle : position.idle = true → s.runLoops.length = 1 → s.deferredNonNestableWorkQueue = []

structure WellScheduled (s : State Closure) : Prop where
  outside : s.runLoops = [] → s.event.waiter = none
  inside : ∀ top rest, s.runLoops = top :: rest →
    s.isReadyForScheduling = true ∧ Restful s top.position ∧
      ∀ outer ∈ rest, outer.position.isRunning = true

theorem WellScheduled.of_inside {s : State Closure} {top : RunLoop} {rest : List RunLoop}
    (loops : s.runLoops = top :: rest) (ready : s.isReadyForScheduling = true)
    (restful : Restful s top.position) (outer : ∀ outer ∈ rest, outer.position.isRunning = true) :
    WellScheduled s := by
  refine ⟨fun none_ => (List.cons_ne_nil _ _ (loops.symm.trans none_)).elim, fun top' rest' same => ?_⟩
  obtain ⟨rfl, rfl⟩ := List.cons.inj (loops.symm.trans same)
  exact ⟨ready, restful, outer⟩

theorem Position.resting_of_idle {position : Position} (idle : position.idle = true) :
    position.resting = true := by
  cases position <;> first | exact idle | cases idle

theorem Position.busy_of_isRunning {position : Position} (runs : position.isRunning = true) :
    position.resting = false := by
  cases position <;> first | rfl | cases runs

/-- A position that is not resting asks for no more than a free event. -/
theorem Restful.of_busy {s : State Closure} {position : Position} (busy : position.resting = false)
    (free : s.event.waiter = none) : Restful s position where
  announced rests := absurd rests (by simp [busy])
  waiter _ := free
  idle idle := absurd (Position.resting_of_idle idle) (by simp [busy])

section Inside
variable {s t : State Closure} {top : RunLoop} {rest : List RunLoop} {position deferred : Position} {site : Site}
  {pending : PendingTask Closure} {didWork : Bool} {maxTime endTime : Option Int}
  (loops : s.runLoops = top :: rest) (ready : s.isReadyForScheduling = true)
  (outer : ∀ outer ∈ rest, outer.position.isRunning = true)
include loops ready outer

theorem WellScheduled.moveTo (restful : Restful s position) : WellScheduled (moveTo s position) := by
  have same : MessageLoop.moveTo s position =
      { s with runLoops := { top with position } :: rest } := by
    unfold MessageLoop.moveTo
    rw [loops]
  rw [same]
  refine .of_inside rfl ready ⟨restful.announced, restful.waiter, ?_⟩ outer
  intro idle outermost
  exact restful.idle idle (by rw [loops]; exact outermost)

section
variable (free : s.event.waiter = none)
include free

/-- The steps that start from a position that is not blocked, and go to one that does not rest. -/
theorem WellScheduled.busy (busy : position.resting = false) :
    WellScheduled (MessageLoop.moveTo s position) :=
  .moveTo loops ready outer (.of_busy busy free)

theorem WellScheduled.runTask :
    WellScheduled (MessageLoop.runTask s site pending) := by
  unfold MessageLoop.runTask
  exact .busy loops ready outer free rfl

/-- After `DeferOrRunPendingTask` the loop runs the task or stands where the caller goes on. -/
theorem WellScheduled.deferOrRunPendingTask (notIdle : deferred.idle = false)
    (announced : deferred.resting = true → s.workQueue = [] ∧ Announced s) :
    WellScheduled (MessageLoop.deferOrRunPendingTask s site deferred pending) := by
  unfold MessageLoop.deferOrRunPendingTask
  split
  · exact .runTask loops ready outer free
  · exact .moveTo loops ready outer ⟨announced, fun _ => free, fun idle => absurd idle (by simp [notIdle])⟩

theorem reloadWorkQueue_wellScheduled (moved : reloadWorkQueue s = some t) :
    WellScheduled t := by
  unfold reloadWorkQueue at moved
  split at moved
  next empty =>
    split at moved
    · cases moved
    next unlocked =>
      split at moved
      next nothing =>
        -- the reload that finds nothing: from here on a poster finds the loop unscheduled
        cases moved
        refine .moveTo loops ready outer ⟨fun _ => ⟨List.isEmpty_iff.mp empty, .inl ?_⟩, fun _ => free, nofun⟩
        exact ⟨List.isEmpty_iff.mp nothing, rfl, by simpa using unlocked⟩
      next =>
        cases moved
        exact .busy loops ready outer free rfl
  next =>
    cases moved
    exact .busy loops ready outer free rfl

theorem drain_wellScheduled [DecidableEq Closure] : WellScheduled (drain s) := by
  unfold drain
  split
  next => exact .busy loops ready outer free rfl
  next pending others _ =>
    have busy : (if others.isEmpty then Position.reload else .drain).resting = false := by
      split <;> rfl
    dsimp only
    split
    · exact .busy loops ready outer free busy
    · refine .deferOrRunPendingTask loops ready outer free ?_ fun rests => ?_
      · split <;> rfl
      · exact (Bool.eq_false_iff.mp busy rests).elim

end

theorem doDelayedWork_wellScheduled (restful : Restful s (.doneWork didWork)) :
    WellScheduled (doDelayedWork s didWork) := by
  have free := restful.waiter rfl
  unfold doDelayedWork
  split
  next pending others _ _ =>
    dsimp only
    split
    · exact .moveTo loops ready outer ⟨restful.announced, fun _ => free, nofun⟩
    · exact .deferOrRunPendingTask loops ready outer free rfl restful.announced
  next => exact .moveTo loops ready outer ⟨restful.announced, fun _ => free, nofun⟩

theorem doIdleWork_wellScheduled (restful : Restful s (.doneDelayedWork false)) (quitWhenIdleReceived : Bool) :
    WellScheduled (doIdleWork s quitWhenIdleReceived) := by
  have free := restful.waiter rfl
  unfold doIdleWork
  split
  next pending others _ _ => exact .runTask loops ready outer free
  next nothing =>
    refine .moveTo loops ready outer ⟨restful.announced, fun _ => free, fun _ outermost => ?_⟩
    cases found : s.deferredNonNestableWorkQueue with
    | nil => rfl
    | cons pending others => exact (nothing pending others (by simpa using outermost) found).elim

/-- The run loop that goes on after the innermost one has been left is running a task. -/
theorem leaveRun_wellScheduled (free : s.event.waiter = none) : WellScheduled (leaveRun s) := by
  refine ⟨fun _ => free, fun next others left => ?_⟩
  have tail : rest = next :: others := by simpa [leaveRun, loops] using left
  subst tail
  refine ⟨ready, .of_busy (Position.busy_of_isRunning (outer next List.mem_cons_self)) free, ?_⟩
  exact fun runLoop member => outer runLoop (List.mem_cons_of_mem _ member)

theorem beginWait_wellScheduled (restful : Restful s .wait) : WellScheduled (beginWait s) := by
  unfold beginWait
  split
  · exact .moveTo loops ready outer ⟨restful.announced, fun _ => restful.waiter rfl, restful.idle⟩
  · split
    · exact .moveTo loops ready outer ⟨restful.announced, fun _ => restful.waiter rfl, restful.idle⟩
    · exact .busy loops ready outer (restful.waiter rfl) rfl

theorem timedWait_wellScheduled (restful : Restful s (.waitFor maxTime)) : WellScheduled (timedWait s maxTime) := by
  have free := restful.waiter rfl
  unfold timedWait
  split
  · exact .busy loops ready outer free rfl
  next unsignaled =>
    refine .moveTo loops ready outer ⟨fun _ => ?_, nofun, restful.idle⟩
    obtain ⟨empty, announced⟩ := restful.announced rfl
    refine ⟨empty, ?_⟩
    rcases announced with quiet | scheduling | signaled | fired
    · exact .inl quiet
    · exact .inr (.inl scheduling)
    · exact absurd signaled unsignaled
    · exact absurd fired (by simp [free])

theorem wakeUp_wellScheduled (woken : wakeUp s endTime = some t) : WellScheduled t := by
  unfold wakeUp at woken
  split at woken
  · cases woken
    exact .busy loops ready outer rfl rfl
  · cases woken

end Inside

/-- `DoWork` is called only while nestable tasks are allowed. -/
def NestableDoWork (s : State Closure) : Action Closure → Prop
  | .advance => (s.runLoops.head?.any fun top => top.position = .doWork) → s.nestableTasksAllowed = true
  | _ => True

instance (s : State Closure) (action : Action Closure) : Decidable (NestableDoWork s action) :=
  match action with
  | .advance => inferInstanceAs (Decidable (_ → _))
  | .tick _ | .addToIncomingQueue .. | .continueScheduling | .startScheduling | .finishTask | .run _
  | .quit _ | .quitNow | .quitWhenIdle | .setNestableTasksAllowed _ | .willDestroyCurrentMessageLoop =>
    .isTrue trivial

theorem advance_wellScheduled [DecidableEq Closure] {s t : State Closure} {top : RunLoop} {rest : List RunLoop}
    (loops : s.runLoops = top :: rest) (well : WellScheduled s)
    (allowed : top.position = .doWork → s.nestableTasksAllowed = true)
    (moved : advance s top = some t) : WellScheduled t := by
  obtain ⟨ready, restful, outer⟩ := well.inside top rest loops
  unfold advance at moved
  cases stands : top.position with
  | doWork =>
    rw [stands] at moved restful
    rw [allowed stands] at moved
    cases moved
    exact .busy loops ready outer (restful.waiter rfl) rfl
  | reload =>
    rw [stands] at moved restful
    exact reloadWorkQueue_wellScheduled loops ready outer (restful.waiter rfl) moved
  | drain =>
    rw [stands] at moved restful
    cases moved
    exact drain_wellScheduled loops ready outer (restful.waiter rfl)
  | doneWork didWork =>
    rw [stands] at moved restful
    cases moved
    split
    · exact doDelayedWork_wellScheduled loops ready outer restful
    · exact leaveRun_wellScheduled loops ready outer (restful.waiter rfl)
  | doneDelayedWork didWork =>
    rw [stands] at moved restful
    cases moved
    split
    · cases didWork with
      | true => exact .busy loops ready outer (restful.waiter rfl) rfl
      | false => exact doIdleWork_wellScheduled loops ready outer restful _
    · exact leaveRun_wellScheduled loops ready outer (restful.waiter rfl)
  | doneIdleWork didWork =>
    rw [stands] at moved restful
    cases moved
    split
    · cases didWork with
      | true => exact .busy loops ready outer (restful.waiter rfl) rfl
      | false =>
        exact .moveTo loops ready outer ⟨restful.announced, fun _ => restful.waiter rfl, restful.idle⟩
    · exact leaveRun_wellScheduled loops ready outer (restful.waiter rfl)
  | wait =>
    rw [stands] at moved restful
    cases moved
    exact beginWait_wellScheduled loops ready outer restful
  | waitFor maxTime =>
    rw [stands] at moved restful
    cases moved
    exact timedWait_wellScheduled loops ready outer restful
  | blocked endTime =>
    rw [stands] at moved
    exact wakeUp_wellScheduled loops ready outer moved
  | running site =>
    rw [stands] at moved
    cases moved

/-- A poster that finds the loop resting announces its task, or finds an earlier one announced. -/
theorem addToIncomingQueue_announced {s : State Closure} (ready : s.isReadyForScheduling = true)
    (unlocked : s.incomingQueueLock = none) (announced : Announced s) (caller : Thread) (task : Closure)
    (delay : Int) (nestable : Bool) : Announced (addToIncomingQueue s caller task delay nestable) := by
  unfold addToIncomingQueue
  split
  next =>
    rcases announced with ⟨empty, unscheduled, _⟩ | ⟨holder, scheduling⟩ | signal
    · refine .inr (.inl ⟨caller, ?_⟩)
      simp [ready, empty, unscheduled]
    · exact absurd scheduling (by simp [unlocked])
    · exact .inr (.inr signal)
  next => exact announced

theorem continueScheduling_announced {s t : State Closure} (announced : Announced s)
    (moved : continueScheduling s = some t) : Announced t := by
  unfold continueScheduling at moved
  split at moved
  next => cases moved
  next =>
    cases moved
    exact .inr (.inr s.event.signal_pending)
  next holder locked =>
    cases moved
    rcases announced with ⟨_, _, unlocked⟩ | ⟨_, scheduling⟩ | signal
    · exact absurd locked (by simp [unlocked])
    · exact absurd locked (by simp [scheduling])
    · exact .inr (.inr signal)

/-- The innermost run loop, while its thread executes code of its own, is running a task. -/
theorem isRunning_of_inTask {s : State Closure} {top : RunLoop} {rest : List RunLoop}
    (free : inTask s = true) (loops : s.runLoops = top :: rest) : top.position.isRunning = true := by
  unfold inTask at free
  rw [loops] at free
  cases stands : top.position <;> simp_all [Position.isRunning]

/-- The code of a task changes the run loops without moving them. -/
theorem WellScheduled.task {s t : State Closure} (well : WellScheduled s) (free : inTask s = true)
    (same : t.runLoops.map (·.position) = s.runLoops.map (·.position))
    (ready : t.isReadyForScheduling = s.isReadyForScheduling)
    (waiter : s.event.waiter = none → t.event.waiter = none) : WellScheduled t := by
  have unblocked : s.event.waiter = none := by
    cases loops : s.runLoops with
    | nil => exact well.outside loops
    | cons top rest =>
      have runs := isRunning_of_inTask free loops
      refine (well.inside top rest loops).2.1.waiter ?_
      cases stands : top.position <;> simp_all [Position.isRunning, Position.isBlocked]
  refine ⟨fun _ => waiter unblocked, fun top rest loops => ?_⟩
  cases earlier : s.runLoops with
  | nil => simp [earlier, loops] at same
  | cons top' rest' =>
    simp only [loops, earlier, List.map_cons, List.cons.injEq] at same
    obtain ⟨isReady, _, outer⟩ := well.inside top' rest' earlier
    refine ⟨ready.trans isReady, .of_busy ?_ (waiter unblocked), fun runLoop member => ?_⟩
    · rw [same.1]
      exact Position.busy_of_isRunning (isRunning_of_inTask free earlier)
    · have listed : runLoop.position ∈ rest'.map (·.position) := same.2 ▸ List.mem_map_of_mem member
      obtain ⟨runLoop', member', position⟩ := List.mem_map.mp listed
      exact position ▸ outer runLoop' member'

/-- What other threads do changes neither the run loops nor the queues of the loop thread. -/
theorem WellScheduled.beside {s t : State Closure} (well : WellScheduled s)
    (loops : t.runLoops = s.runLoops) (ready : t.isReadyForScheduling = s.isReadyForScheduling)
    (work : t.workQueue = s.workQueue)
    (deferred : t.deferredNonNestableWorkQueue = s.deferredNonNestableWorkQueue)
    (waiter : s.event.waiter = none → t.event.waiter = none)
    (announced : s.isReadyForScheduling = true → Announced s → Announced t) : WellScheduled t := by
  refine ⟨fun outside => waiter (well.outside (loops ▸ outside)), fun top rest same => ?_⟩
  obtain ⟨isReady, restful, outer⟩ := well.inside top rest (loops ▸ same)
  refine ⟨ready.trans isReady, ⟨fun rests => ?_, fun free => waiter (restful.waiter free), ?_⟩, outer⟩
  · obtain ⟨empty, known⟩ := restful.announced rests
    exact ⟨work.trans empty, announced isReady known⟩
  · rw [loops, deferred]
    exact restful.idle

theorem addToIncomingQueue_wellScheduled {s : State Closure} (well : WellScheduled s)
    (unlocked : s.incomingQueueLock = none) (caller : Thread) (task : Closure) (delay : Int)
    (nestable : Bool) : WellScheduled (addToIncomingQueue s caller task delay nestable) := by
  have kept := fun ready known => addToIncomingQueue_announced ready unlocked known caller task delay nestable
  unfold addToIncomingQueue at kept ⊢
  split
  next alive =>
    simp only [alive, if_true] at kept
    exact well.beside rfl rfl rfl rfl id kept
  next => exact well

theorem continueScheduling_wellScheduled {s t : State Closure} (well : WellScheduled s)
    (moved : continueScheduling s = some t) : WellScheduled t := by
  have kept := fun (_ : s.isReadyForScheduling = true) known => continueScheduling_announced known moved
  unfold continueScheduling at moved
  split at moved
  next => cases moved
  next =>
    cases moved
    exact well.beside rfl rfl rfl rfl (WaitableEvent.signal_waiter _).mpr kept
  next =>
    cases moved
    exact well.beside rfl rfl rfl rfl id kept

theorem WellScheduled.unblocked {s : State Closure} (well : WellScheduled s) (free : inTask s = true) :
    s.event.waiter = none := by
  cases loops : s.runLoops with
  | nil => exact well.outside loops
  | cons top rest =>
    have runs := isRunning_of_inTask free loops
    refine (well.inside top rest loops).2.1.waiter ?_
    cases stands : top.position <;> simp_all [Position.isRunning, Position.isBlocked]

theorem run_wellScheduled {s : State Closure} (well : WellScheduled s) (free : inTask s = true)
    (ready : s.isReadyForScheduling = true) (untilIdle : Bool) :
    WellScheduled { s with runLoops := { quitWhenIdleReceived := untilIdle } :: s.runLoops } := by
  refine .of_inside rfl ready (.of_busy rfl (well.unblocked free)) fun runLoop member => ?_
  cases loops : s.runLoops with
  | nil => exact absurd member (by simp [loops])
  | cons top rest =>
    rw [loops] at member
    rcases List.mem_cons.mp member with rfl | outer
    · exact isRunning_of_inTask free loops
    · exact (well.inside top rest loops).2.2 runLoop outer

theorem positions_modify (change : RunLoop → RunLoop) (same : ∀ runLoop, (change runLoop).position = runLoop.position)
    (depth : Nat) (runLoops : List RunLoop) :
    (runLoops.modify depth change).map (·.position) = runLoops.map (·.position) := by
  induction runLoops generalizing depth with
  | nil => rw [List.modify_nil]
  | cons top rest ih =>
    cases depth with
    | zero => simp [same]
    | succ depth => simp [ih]

theorem step_wellScheduled [DecidableEq Closure] {s t : State Closure} {action : Action Closure}
    (well : WellScheduled s) (allowed : NestableDoWork s action) (moved : step s action = some t) :
    WellScheduled t := by
  cases action with
  | tick now =>
    obtain ⟨_, rfl⟩ := Library.of_guarded moved
    exact well.beside rfl rfl rfl rfl id fun _ known => known
  | addToIncomingQueue caller task delay nestable =>
    obtain ⟨⟨unlocked, _⟩, rfl⟩ := Library.of_guarded moved
    exact addToIncomingQueue_wellScheduled well unlocked caller task delay nestable
  | continueScheduling => exact continueScheduling_wellScheduled well moved
  | startScheduling =>
    obtain ⟨⟨_, outside, _⟩, rfl⟩ := Library.of_guarded moved
    exact ⟨fun _ => well.outside outside, fun top rest loops => absurd loops (by simp [startScheduling, outside])⟩
  | advance =>
    simp only [step] at moved
    split at moved
    next => cases moved
    next top rest loops =>
      split at moved
      · cases moved
      · exact advance_wellScheduled loops well (fun stands => allowed (by simp [loops, stands])) moved
  | finishTask =>
    simp only [step] at moved
    split at moved
    next site quitCalled quitWhenIdle rest loops =>
      simp only [Option.ite_none_right_eq_some, Option.some.injEq] at moved
      obtain ⟨free, rfl⟩ := moved
      obtain ⟨ready, _, outer⟩ := well.inside _ _ loops
      refine .busy loops ready outer (well.unblocked free) ?_
      cases site <;> rfl
    next => cases moved
  | run untilIdle =>
    obtain ⟨⟨free, _, ready⟩, rfl⟩ := Library.of_guarded moved
    exact run_wellScheduled well free ready untilIdle
  | quit depth =>
    obtain ⟨⟨free, _⟩, rfl⟩ := Library.of_guarded moved
    refine well.task free ?_ rfl id
    exact positions_modify (fun runLoop => { runLoop with quitCalled := true }) (fun _ => rfl) depth s.runLoops
  | quitNow =>
    obtain ⟨⟨free, _⟩, rfl⟩ := Library.of_guarded moved
    exact well.task free rfl rfl id
  | quitWhenIdle =>
    obtain ⟨⟨free, _⟩, rfl⟩ := Library.of_guarded moved
    refine well.task free ?_ rfl id
    simp only [updateTop]
    cases s.runLoops <;> rfl
  | setNestableTasksAllowed permitted =>
    obtain ⟨⟨free, _⟩, rfl⟩ := Library.of_guarded moved
    cases permitted with
    | true => exact well.task free rfl rfl (WaitableEvent.signal_waiter _).mpr
    | false => exact well.task free rfl rfl id
  | willDestroyCurrentMessageLoop =>
    obtain ⟨_, rfl⟩ := Library.of_guarded moved
    exact well.beside rfl rfl rfl rfl id fun _ known => known

theorem wellScheduled_initial (always : Bool) : WellScheduled (initial always : State Closure) :=
  ⟨fun _ => rfl, fun _ _ loops => absurd loops (List.cons_ne_nil _ _).symm⟩

/-- The loop thread is blocked in `event_.Wait()`, without a timeout. -/
def BlockedWithoutTimeout (s : State Closure) : Prop :=
  ∃ top, s.runLoops.head? = some top ∧ top.position = .blocked none

/-- Blocked without a timeout, the event unsignalled and nobody inside `ScheduleWork`. -/
structure Asleep (s : State Closure) : Prop where
  blocked : BlockedWithoutTimeout s
  unsignaled : ¬s.event.pending
  noScheduling : s.incomingQueueLock = none

/-- A task that `DoWork` has taken, and that has started or waits for the nested run loops to end. -/
def PickedUp (s : State Closure) (pending : PendingTask Closure) : Prop :=
  pending ∈ s.started ∨
    (pending ∈ s.deferredNonNestableWorkQueue ∧ pending.nestable = false ∧ 1 < s.runLoops.length)

/-- No lost wake-up: however the posts and the loop interleave, a loop that sleeps has an empty
incoming queue, and every task it accepted without a delay has been picked up. -/
theorem no_lost_wakeUp [DecidableEq Closure] {always : Bool} {s : State Closure}
    (reached : Reaches step NestableDoWork (initial always) s) (asleep : Asleep s) :
    s.incomingQueue = [] ∧
      ∀ pending delay, (pending, delay) ∈ s.posted → delay ≤ 0 → PickedUp s pending := by
  have well : WellScheduled s :=
    reached.invariant WellScheduled (wellScheduled_initial always) fun _ _ _ well allowed moved =>
      step_wellScheduled well allowed moved
  have kept : Kept s.queues :=
    reached.invariant (fun s => Kept s.queues) (kept_initial always) fun _ _ _ kept _ moved =>
      (step_moved moved).kept kept
  obtain ⟨top, innermost, blocked⟩ := asleep.blocked
  obtain ⟨rest, loops⟩ : ∃ rest, s.runLoops = top :: rest := by
    cases found : s.runLoops with
    | nil => simp [found] at innermost
    | cons first rest => exact ⟨rest, by simpa [found] using innermost⟩
  obtain ⟨_, restful, _⟩ := well.inside top rest loops
  rw [blocked] at restful
  obtain ⟨noWork, announced⟩ := restful.announced rfl
  have noIncoming : s.incomingQueue = [] := by
    rcases announced with ⟨empty, _, _⟩ | ⟨holder, scheduling⟩ | signal
    · exact empty
    · exact absurd scheduling (by simp [asleep.noScheduling])
    · exact absurd signal asleep.unsignaled
  refine ⟨noIncoming, fun pending delay accepted none_ => ?_⟩
  have immediate := kept.immediate pending delay accepted none_
  rcases kept.placed accepted with started | deferred | delayed | work | incoming
  · exact .inl started
  · refine .inr ⟨deferred, kept.deferred pending deferred, ?_⟩
    by_contra outermost
    have single : s.runLoops.length = 1 := by
      rw [loops, List.length_cons] at outermost ⊢
      omega
    exact absurd deferred (by simp [State.queues, restful.idle rfl single])
  · exact absurd immediate (kept.delayed pending delayed)
  · exact absurd work (by simp [State.queues, noWork])
  · exact absurd incoming (by simp [State.queues, noIncoming])

/-- One task before `StartScheduling`, one from another thread while the first runs; then sleep. -/
def drowsyRun : List (Action Nat) :=
  [.addToIncomingQueue .other 0 0 true, .startScheduling, .continueScheduling, .continueScheduling,
    .run false, .advance, .advance, .advance, .addToIncomingQueue .other 1 0 false, .finishTask] ++
    List.replicate 5 .advance ++ [.finishTask] ++ List.replicate 16 .advance

theorem no_lost_wakeUp_drowsy : ∃ s : State Nat, Asleep s ∧ s.posted.length = 2 ∧ s.incomingQueue = [] ∧
    ∀ pending delay, (pending, delay) ∈ s.posted → delay ≤ 0 → PickedUp s pending := by
  obtain ⟨s, ran⟩ : ∃ s, runFrom step NestableDoWork (initial false) drowsyRun = some s := ⟨_, rfl⟩
  have asleep : Asleep s := by
    cases ran
    exact ⟨⟨_, rfl, rfl⟩, by decide, rfl⟩
  have two : s.posted.length = 2 := by
    cases ran
    rfl
  exact ⟨s, asleep, two, no_lost_wakeUp (Reaches.start.run ran) asleep⟩

end Libchrome.Base.MessageLoop
