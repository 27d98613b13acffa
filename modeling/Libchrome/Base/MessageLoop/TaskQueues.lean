import Mathlib.Order.Basic
import Libchrome.Base.MessageLoop.MessageLoop

/-!
# How tasks move between the queues

Every step of the loop moves at most one task, or swaps the incoming queue in. `Moved` lists the
moves; the machine makes no others, and what holds of all moves holds of all runs.
-/

namespace Libchrome.Base.MessageLoop

open Library

variable {Closure : Type}

/-- The queues of the loop, with the tasks accepted and the tasks started so far, the counter of the
posts and the clock. -/
structure Queues (Closure : Type) where
  incoming : List (PendingTask Closure)
  work : List (PendingTask Closure)
  delayed : List (PendingTask Closure)
  deferred : List (PendingTask Closure)
  posted : List (PendingTask Closure × Int)
  started : List (PendingTask Closure)
  nextSequenceNum : Int
  now : Int

def State.queues (s : State Closure) : Queues Closure :=
  ⟨s.incomingQueue, s.workQueue, s.delayedWorkQueue, s.deferredNonNestableWorkQueue, s.posted, s.started,
    s.nextSequenceNum, s.now⟩

/-- A task may run here: it is nestable or the run loop is the outermost one. -/
def mayRun (s : State Closure) (pending : PendingTask Closure) : Bool :=
  pending.nestable || s.runLoops.length == 1

/-- The task at the front of `work_queue_`, if `DoWork` runs it. -/
def nextImmediate (s : State Closure) : Option (PendingTask Closure) :=
  match s.workQueue with
  | pending :: _ => if pending.delayedRunTime = 0 ∧ mayRun s pending then some pending else none
  | [] => none

/-- The task at the top of `delayed_work_queue_`, if `DoDelayedWork` runs it. -/
def nextDelayed (s : State Closure) : Option (PendingTask Closure) :=
  match s.nestableTasksAllowed, s.delayedWorkQueue with
  | true, pending :: _ =>
    if pending.delayedRunTime ≤ recentTimeAt s pending.delayedRunTime ∧ mayRun s pending then some pending
    else none
  | _, _ => none

def nextTaskAt (s : State Closure) : Position → Option (PendingTask Closure)
  | .drain => nextImmediate s
  | .doneWork _ => if s.keepRunning then nextDelayed s else none
  | _ => none

/-- The task that `DoWork` or `DoDelayedWork` takes off its queue and starts in the next step. -/
def nextTask (s : State Closure) : Action Closure → Option (PendingTask Closure)
  | .advance => s.runLoops.head?.bind fun top => nextTaskAt s top.position
  | _ => none

/-- The moves of the queues in one step from `s`, with the task that `DoWork` or `DoDelayedWork`
starts. -/
inductive Moved (s : State Closure) :
    Action Closure → Option (PendingTask Closure) → Queues Closure → Prop where
  | still {action : Action Closure} : Moved s action none s.queues
  | tick (later : Int) (passes : s.now ≤ later) : Moved s (.tick later) none { s.queues with now := later }
  | post (caller : Thread) (task : Closure) (delay : Int) (nestable : Bool) (pending : PendingTask Closure)
      (alive : s.messageLoop = true)
      (built : pending = ⟨task, calculateDelayedRuntime s.now delay, s.nextSequenceNum, nestable⟩) :
      Moved s (.addToIncomingQueue caller task delay nestable) none { s.queues with
        nextSequenceNum := (s.nextSequenceNum + 1).bmod (2 ^ 32)
        incoming := s.incomingQueue ++ [pending]
        posted := s.posted ++ [(pending, delay)] }
  | swap (empty : s.workQueue = []) :
      Moved s .advance none { s.queues with incoming := [], work := s.incomingQueue }
  | delay (pending : PendingTask Closure) (rest : List (PendingTask Closure))
      (front : s.workQueue = pending :: rest) (late : pending.delayedRunTime ≠ 0) :
      Moved s .advance none { s.queues with work := rest, delayed := push pending s.delayedWorkQueue }
  | startWork (pending : PendingTask Closure) (rest : List (PendingTask Closure))
      (front : s.workQueue = pending :: rest) (now : pending.delayedRunTime = 0) :
      Moved s .advance (some pending) { s.queues with work := rest, started := s.started ++ [pending] }
  | deferWork (pending : PendingTask Closure) (rest : List (PendingTask Closure))
      (front : s.workQueue = pending :: rest) (now : pending.delayedRunTime = 0)
      (waits : pending.nestable = false) :
      Moved s .advance none { s.queues with
        work := rest, deferred := s.deferredNonNestableWorkQueue ++ [pending] }
  | startDelayed (pending : PendingTask Closure) (rest : List (PendingTask Closure))
      (front : s.delayedWorkQueue = pending :: rest) :
      Moved s .advance (some pending) { s.queues with delayed := rest, started := s.started ++ [pending] }
  | deferDelayed (pending : PendingTask Closure) (rest : List (PendingTask Closure))
      (front : s.delayedWorkQueue = pending :: rest) (waits : pending.nestable = false) :
      Moved s .advance none { s.queues with
        delayed := rest, deferred := s.deferredNonNestableWorkQueue ++ [pending] }
  | startDeferred (pending : PendingTask Closure) (rest : List (PendingTask Closure))
      (front : s.deferredNonNestableWorkQueue = pending :: rest) :
      Moved s .advance none { s.queues with deferred := rest, started := s.started ++ [pending] }

@[simp] theorem moveTo_queues (s : State Closure) (position : Position) :
    (moveTo s position).queues = s.queues := by
  unfold moveTo
  split <;> rfl

theorem beginWait_queues (s : State Closure) : (beginWait s).queues = s.queues := by
  unfold beginWait
  split
  · simp
  · split
    · simp
    · rw [moveTo_queues]
      rfl

theorem timedWait_queues (s : State Closure) (maxTime : Option Int) :
    (timedWait s maxTime).queues = s.queues := by
  unfold timedWait
  split <;> rw [moveTo_queues] <;> rfl

variable {s t : State Closure}

theorem wakeUp_queues {endTime : Option Int} (woken : wakeUp s endTime = some t) : t.queues = s.queues := by
  unfold wakeUp at woken
  split at woken
  · cases woken
    rw [moveTo_queues]
    rfl
  · cases woken

theorem runTask_queues (s : State Closure) (site : Site) (pending : PendingTask Closure) :
    (runTask s site pending).queues = { s.queues with started := s.started ++ [pending] } := by
  unfold runTask
  rw [moveTo_queues]
  rfl

variable {pending : PendingTask Closure}

theorem deferOrRunPendingTask_runs {site : Site} {deferred : Position} (runs : mayRun s pending = true) :
    (deferOrRunPendingTask s site deferred pending).queues =
      { s.queues with started := s.started ++ [pending] } := by
  unfold mayRun at runs
  unfold deferOrRunPendingTask
  rw [if_pos runs, runTask_queues]

theorem deferOrRunPendingTask_waits {site : Site} {deferred : Position} (waits : ¬mayRun s pending = true) :
    (deferOrRunPendingTask s site deferred pending).queues =
      { s.queues with deferred := s.deferredNonNestableWorkQueue ++ [pending] } := by
  unfold mayRun at waits
  unfold deferOrRunPendingTask
  rw [if_neg waits, moveTo_queues]
  rfl

theorem nestable_of_not_mayRun (waits : ¬mayRun s pending = true) : pending.nestable = false :=
  (Bool.or_eq_false_iff.mp (Bool.eq_false_iff.mpr waits)).1

variable {action : Action Closure} {queues : Queues Closure}

theorem Moved.of_eq (same : queues = s.queues) : Moved s action none queues := same ▸ .still

theorem reloadWorkQueue_moved (moved : reloadWorkQueue s = some t) : Moved s .advance none t.queues := by
  unfold reloadWorkQueue at moved
  split at moved
  next empty =>
    split at moved
    · cases moved
    · split at moved
      · cases moved
        exact .of_eq (moveTo_queues _ _)
      · cases moved
        rw [moveTo_queues]
        exact .swap (List.isEmpty_iff.mp empty)
  next =>
    cases moved
    exact .of_eq (moveTo_queues _ _)

theorem drain_moved [DecidableEq Closure] (s : State Closure) :
    Moved s .advance (nextImmediate s) (drain s).queues := by
  unfold nextImmediate drain
  cases front : s.workQueue with
  | nil => exact .of_eq (moveTo_queues _ _)
  | cons pending rest =>
    dsimp only
    by_cases now : pending.delayedRunTime = 0
    · rw [if_neg (not_not.mpr now)]
      by_cases runs : mayRun s pending = true
      · rw [if_pos ⟨now, runs⟩, deferOrRunPendingTask_runs]
        · exact .startWork pending rest front now
        · exact runs
      · rw [if_neg (fun both => runs both.2), deferOrRunPendingTask_waits]
        · exact .deferWork pending rest front now (nestable_of_not_mayRun runs)
        · exact runs
    · rw [if_pos now, if_neg (fun both => now both.1), moveTo_queues]
      exact .delay pending rest front now

theorem doDelayedWork_moved (s : State Closure) (didWork : Bool) :
    Moved s .advance (nextDelayed s) (doDelayedWork s didWork).queues := by
  unfold nextDelayed doDelayedWork
  cases s.nestableTasksAllowed with
  | false => exact .of_eq (moveTo_queues _ _)
  | true =>
    cases front : s.delayedWorkQueue with
    | nil => exact .of_eq (by rw [moveTo_queues]; simp only [State.queues, front])
    | cons pending rest =>
      dsimp only
      by_cases early : pending.delayedRunTime > recentTimeAt s pending.delayedRunTime
      · rw [if_pos early, if_neg (by omega), moveTo_queues]
        exact .of_eq (by simp only [State.queues, front])
      · rw [if_neg early]
        by_cases runs : mayRun s pending = true
        · rw [if_pos ⟨by omega, runs⟩, deferOrRunPendingTask_runs]
          · exact .startDelayed pending rest front
          · exact runs
        · rw [if_neg (fun both => runs both.2), deferOrRunPendingTask_waits]
          · exact .deferDelayed pending rest front (nestable_of_not_mayRun runs)
          · exact runs

theorem doIdleWork_moved (s : State Closure) (quitWhenIdleReceived : Bool) :
    Moved s .advance none (doIdleWork s quitWhenIdleReceived).queues := by
  unfold doIdleWork
  split
  next pending rest _ front =>
    rw [runTask_queues]
    exact .startDeferred pending rest front
  next => exact .of_eq (moveTo_queues _ _)

theorem advance_moved [DecidableEq Closure] {top : RunLoop} {rest : List RunLoop} (loops : s.runLoops = top :: rest)
    (moved : advance s top = some t) : Moved s .advance (nextTask s .advance) t.queues := by
  have next : nextTask s .advance = nextTaskAt s top.position := by
    simp only [nextTask, loops, List.head?_cons, Option.bind_some]
  rw [next]
  unfold advance at moved
  cases stands : top.position with
  | doWork =>
    rw [stands] at moved
    cases moved
    exact .of_eq (moveTo_queues s _)
  | reload =>
    rw [stands] at moved
    exact reloadWorkQueue_moved moved
  | drain =>
    rw [stands] at moved
    cases moved
    exact drain_moved s
  | doneWork didWork =>
    rw [stands] at moved
    cases moved
    unfold nextTaskAt
    by_cases running : s.keepRunning = true
    · rw [if_pos running, if_pos running]
      exact doDelayedWork_moved s didWork
    · rw [if_neg running, if_neg running]
      exact .still
  | doneDelayedWork didWork =>
    rw [stands] at moved
    cases moved
    split
    · split
      · exact .of_eq (moveTo_queues s _)
      · exact doIdleWork_moved s _
    · exact .still
  | doneIdleWork didWork =>
    rw [stands] at moved
    cases moved
    split
    · exact .of_eq (moveTo_queues s _)
    · exact .still
  | wait =>
    rw [stands] at moved
    cases moved
    exact .of_eq (beginWait_queues s)
  | waitFor maxTime =>
    rw [stands] at moved
    cases moved
    exact .of_eq (timedWait_queues s maxTime)
  | blocked endTime =>
    rw [stands] at moved
    exact .of_eq (wakeUp_queues moved)
  | running site =>
    rw [stands] at moved
    cases moved

theorem addToIncomingQueue_moved (s : State Closure) (caller : Thread) (task : Closure) (delay : Int)
    (nestable : Bool) : Moved s (.addToIncomingQueue caller task delay nestable) none
      (addToIncomingQueue s caller task delay nestable).queues := by
  unfold addToIncomingQueue
  split
  next alive => exact .post caller task delay nestable _ alive rfl
  next => exact .still

theorem continueScheduling_queues (moved : continueScheduling s = some t) : t.queues = s.queues := by
  unfold continueScheduling at moved
  split at moved <;> cases moved <;> rfl

theorem step_moved [DecidableEq Closure] (moved : step s action = some t) :
    Moved s action (nextTask s action) t.queues := by
  cases action with
  | tick later =>
    obtain ⟨⟨passes, _⟩, rfl⟩ := Library.of_guarded moved
    exact .tick later passes
  | addToIncomingQueue caller task delay nestable =>
    obtain ⟨_, rfl⟩ := Library.of_guarded moved
    exact addToIncomingQueue_moved s caller task delay nestable
  | continueScheduling => exact .of_eq (continueScheduling_queues moved)
  | advance =>
    simp only [step] at moved
    split at moved
    next => cases moved
    next top rest loops =>
      split at moved
      · cases moved
      · exact advance_moved loops moved
  | finishTask =>
    simp only [step] at moved
    split at moved
    · simp only [Option.ite_none_right_eq_some, Option.some.injEq] at moved
      obtain ⟨_, rfl⟩ := moved
      exact .of_eq (moveTo_queues _ _)
    · cases moved
  | setNestableTasksAllowed allowed =>
    obtain ⟨_, rfl⟩ := Library.of_guarded moved
    cases allowed <;> exact .still
  | startScheduling | run | quit | quitNow | quitWhenIdle | willDestroyCurrentMessageLoop =>
    obtain ⟨_, rfl⟩ := Library.of_guarded moved
    exact .still

/-- `push` adds the task and keeps the others. -/
@[simp] theorem mem_push {other : PendingTask Closure} {queue : List (PendingTask Closure)} :
    other ∈ push pending queue ↔ other = pending ∨ other ∈ queue := by
  induction queue with
  | nil => simp [push]
  | cons top rest ih =>
    unfold push
    split
    · simp
    · simp only [List.mem_cons, ih]
      tauto

theorem calculateDelayedRuntime_of_nonpos {now delay : Int} (none_ : delay ≤ 0) :
    calculateDelayedRuntime now delay = 0 :=
  if_neg (by omega)

/-- The tasks of all queues, the ones started included. -/
def Queues.all (queues : Queues Closure) : List (PendingTask Closure) :=
  queues.started ++ (queues.deferred ++ (queues.delayed ++ (queues.work ++ queues.incoming)))

/-- No task is lost or doubled on its way, and each queue holds the tasks it is for. -/
structure Kept (queues : Queues Closure) : Prop where
  conserved : queues.all.Perm (queues.posted.map (·.1))
  immediate : ∀ pending delay, (pending, delay) ∈ queues.posted → delay ≤ 0 → pending.delayedRunTime = 0
  delayed : ∀ pending ∈ queues.delayed, pending.delayedRunTime ≠ 0
  deferred : ∀ pending ∈ queues.deferred, pending.nestable = false

theorem push_perm (pending : PendingTask Closure) (queue : List (PendingTask Closure)) :
    (push pending queue).Perm (pending :: queue) := by
  induction queue with
  | nil => exact .refl _
  | cons top rest ih =>
    unfold push
    split
    · exact .refl _
    · exact (ih.cons top).trans (.swap pending top rest)

/-- A move takes a task from one queue to another, or adds the task that is posted. -/
theorem Moved.conserved {next : Option (PendingTask Closure)} (moved : Moved s action next queues)
    (conserved : s.queues.all.Perm (s.posted.map (·.1))) : queues.all.Perm (queues.posted.map (·.1)) := by
  classical
  rw [List.perm_iff_count] at conserved ⊢
  intro other
  have count := conserved other
  simp only [Queues.all, State.queues, List.count_append] at count
  cases moved with
  | still | tick => simpa [Queues.all, State.queues] using count
  | post caller task delay nestable pending alive built =>
    simp only [Queues.all, State.queues, List.count_append, List.map_append, List.map_cons, List.map_nil]
    omega
  | swap empty =>
    simp only [Queues.all, State.queues, List.count_append, empty, List.count_nil] at count ⊢
    omega
  | delay pending rest front late =>
    have pushed := (push_perm pending s.delayedWorkQueue).count_eq other
    simp only [Queues.all, State.queues, List.count_append, front, List.count_cons, pushed] at count ⊢
    omega
  | startWork pending rest front now =>
    simp only [Queues.all, State.queues, List.count_append, front, List.count_cons, List.count_nil] at count ⊢
    omega
  | deferWork pending rest front now waits =>
    simp only [Queues.all, State.queues, List.count_append, front, List.count_cons, List.count_nil] at count ⊢
    omega
  | startDelayed pending rest front =>
    simp only [Queues.all, State.queues, List.count_append, front, List.count_cons, List.count_nil] at count ⊢
    omega
  | deferDelayed pending rest front waits =>
    simp only [Queues.all, State.queues, List.count_append, front, List.count_cons, List.count_nil] at count ⊢
    omega
  | startDeferred pending rest front =>
    simp only [Queues.all, State.queues, List.count_append, front, List.count_cons, List.count_nil] at count ⊢
    omega

theorem Moved.kept {next : Option (PendingTask Closure)} (moved : Moved s action next queues) (kept : Kept s.queues) :
    Kept queues := by
  have conserved := moved.conserved kept.conserved
  obtain ⟨_, immediate, delayed, deferred⟩ := kept
  simp only [State.queues] at immediate delayed deferred
  cases moved with
  | still | tick | swap | startWork => exact ⟨conserved, immediate, delayed, deferred⟩
  | post caller task delay nestable pending alive built =>
    refine ⟨conserved, fun other otherDelay accepted none_ => ?_, delayed, deferred⟩
    rcases List.mem_append.mp accepted with earlier | new
    · exact immediate other otherDelay earlier none_
    · obtain ⟨rfl, rfl⟩ := Prod.mk.inj (List.mem_singleton.mp new)
      rw [built]
      exact calculateDelayedRuntime_of_nonpos none_
  | delay pending rest front late =>
    refine ⟨conserved, immediate, fun other queued => ?_, deferred⟩
    rcases mem_push.mp queued with rfl | queued
    · exact late
    · exact delayed other queued
  | deferWork pending rest front now waits =>
    refine ⟨conserved, immediate, delayed, fun other queued => ?_⟩
    rcases List.mem_append.mp queued with queued | new
    · exact deferred other queued
    · exact List.mem_singleton.mp new ▸ waits
  | startDelayed pending rest front =>
    exact ⟨conserved, immediate, fun other queued => delayed other (front ▸ List.mem_cons_of_mem _ queued), deferred⟩
  | deferDelayed pending rest front waits =>
    refine ⟨conserved, immediate, fun other queued => ?_, fun other queued => ?_⟩
    · exact delayed other (front ▸ List.mem_cons_of_mem _ queued)
    · rcases List.mem_append.mp queued with queued | new
      · exact deferred other queued
      · exact List.mem_singleton.mp new ▸ waits
  | startDeferred pending rest front =>
    exact ⟨conserved, immediate, delayed, fun other queued => deferred other (front ▸ List.mem_cons_of_mem _ queued)⟩

/-- An accepted task is in one of the queues, or has started. -/
theorem Kept.placed (kept : Kept queues) {delay : Int} (accepted : (pending, delay) ∈ queues.posted) :
    pending ∈ queues.started ∨ pending ∈ queues.deferred ∨ pending ∈ queues.delayed ∨
      pending ∈ queues.work ∨ pending ∈ queues.incoming := by
  have listed := kept.conserved.mem_iff.mpr (List.mem_map_of_mem (f := (·.1)) accepted)
  simpa [Queues.all] using listed

/-- A new loop on its thread: nothing posted, nothing running. -/
def initial (alwaysScheduleWork : Bool) : State Closure :=
  { alwaysScheduleWork }

theorem kept_initial (always : Bool) : Kept (initial always : State Closure).queues :=
  ⟨.refl _, nofun, nofun, nofun⟩

end Libchrome.Base.MessageLoop
