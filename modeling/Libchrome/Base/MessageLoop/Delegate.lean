import Libchrome.Base.MessageLoop.MessageLoop
import Mathlib.Order.Basic

/-!
# `MessageLoop` as the delegate of any pump, to the end of its life

The pump calls `DoWork`, `DoDelayedWork` and `DoIdleWork` whenever it wants, also while a task runs a
nested loop. Any thread posts at any time. The destructor deletes what has not run, and the tasks it
deletes may post again and run loops of their own.
-/

namespace Libchrome.Base.MessageLoop.Delegate

/-- A closure with the number of posts accepted before its own, which the code never sees. -/
structure Posted (Closure : Type) where
  closure : Closure
  position : Nat
  deriving DecidableEq, Repr

abbrev Task (Closure : Type) := PendingTask (Posted Closure)

/-- `MessageLoop::RunTask` has started the task at a time and at a run depth. -/
structure Start (Closure : Type) where
  task : Task Closure
  time : Int
  runDepth : Nat
  deriving DecidableEq, Repr

/-- Where the outer loop of `DoWork` stands. -/
inductive Turn where
  | reload
  | drain
  deriving DecidableEq, Repr

/-- The three loops of `DeletePendingTasks`. -/
inductive Stage where
  | work
  | deferred
  | delayed
  deriving DecidableEq, Repr

/-- Where `~MessageLoop` stands: in one of its two calls of `DeletePendingTasks`, with the `did_work`
of the call so far, before one of the statements after them, or past its end. -/
inductive Destruction where
  | deletePendingTasks (round : Nat) (reloaded : Bool) (stage : Stage) (didWork : Bool)
  | reloadWorkQueue (round : Nat)
  | willDestroyCurrentMessageLoop
  | members
  | gone
  deriving DecidableEq, Repr

/-- A call on the stack of the loop thread. -/
inductive Frame where
  | runLoop
  | task
  | doWork (turn : Turn)
  | destructor (position : Destruction)
  deriving DecidableEq, Repr

/-- The members of the incoming queue and the loop, the calls of the loop thread (the innermost
first) and the clock. The last six fields record what happened: the tasks accepted, started and
destroyed unrun, each in order, the posts accepted before the incoming queue was last emptied, and
those accepted before the destructor began. -/
structure State (Closure : Type) where
  incomingQueue : List (Task Closure) := []
  messageLoop : Bool := true
  nextSequenceNum : Int := 0
  workQueue : List (Task Closure) := []
  delayedWorkQueue : List (Task Closure) := []
  deferredNonNestableWorkQueue : List (Task Closure) := []
  nestableTasksAllowed : Bool := true
  recentTime : Int := 0
  frames : List Frame := []
  now : Int := 0
  posted : List (Task Closure) := []
  started : List (Start Closure) := []
  destroyed : List (Task Closure) := []
  reloaded : Nat := 0
  begun : Nat := 0
  deriving DecidableEq

variable {Closure : Type}

/-- `run_loop_->run_depth_`, zero without a run loop. -/
def runDepth (s : State Closure) : Nat := s.frames.count .runLoop

/-- `IncomingTaskQueue::AddToIncomingQueue` with `PostPendingTask`. -/
def addToIncomingQueue (s : State Closure) (closure : Closure) (delay : Int) (nestable : Bool) : State Closure :=
  if s.messageLoop then
    let pending : Task Closure :=
      ⟨⟨closure, s.posted.length⟩, calculateDelayedRuntime s.now delay, s.nextSequenceNum, nestable⟩
    { s with
      nextSequenceNum := (s.nextSequenceNum + 1).bmod (2 ^ 32)
      incomingQueue := s.incomingQueue ++ [pending]
      posted := s.posted ++ [pending] }
  else s

/-- `MessageLoop::RunTask`, up to the start of the task. -/
def runTask (s : State Closure) (pending : Task Closure) : State Closure :=
  { s with
    nestableTasksAllowed := false
    started := s.started ++ [⟨pending, s.now, runDepth s⟩]
    frames := .task :: s.frames }

/-- `MessageLoop::DeferOrRunPendingTask`. -/
def deferOrRunPendingTask (s : State Closure) (pending : Task Closure) : State Closure :=
  if pending.nestable || runDepth s == 1 then runTask s pending
  else { s with deferredNonNestableWorkQueue := s.deferredNonNestableWorkQueue ++ [pending] }

/-- `MessageLoop::ReloadWorkQueue` with `IncomingTaskQueue::ReloadWorkQueue`. -/
def reloadWorkQueue (s : State Closure) : State Closure :=
  if s.workQueue.isEmpty then
    { s with incomingQueue := [], workQueue := s.incomingQueue, reloaded := s.posted.length }
  else s

/-- A turn of the outer loop of `MessageLoop::DoWork`, up to its inner loop or the return. -/
def reload (s : State Closure) (callers : List Frame) : State Closure :=
  let reloaded := reloadWorkQueue s
  { reloaded with
    frames := if reloaded.workQueue.isEmpty then callers else .doWork .drain :: callers }

/-- A turn of the inner loop of `MessageLoop::DoWork`. A task it runs is on top of it on the stack. -/
def drain (s : State Closure) (callers : List Frame) : State Closure :=
  match s.workQueue with
  | [] => { s with frames := .doWork .reload :: callers }
  | pending :: rest =>
    if pending.delayedRunTime ≠ 0 then
      { s with workQueue := rest, delayedWorkQueue := push pending s.delayedWorkQueue }
    else deferOrRunPendingTask { s with workQueue := rest } pending

/-- `MessageLoop::DoDelayedWork`. -/
def doDelayedWork (s : State Closure) : State Closure :=
  match s.nestableTasksAllowed, s.delayedWorkQueue with
  | true, top :: rest =>
    let recent := if top.delayedRunTime > s.recentTime then s.now else s.recentTime
    if top.delayedRunTime > recent then { s with recentTime := recent }
    else deferOrRunPendingTask { s with recentTime := recent, delayedWorkQueue := rest } top
  | _, _ => { s with recentTime := 0 }

/-- `MessageLoop::DoIdleWork` with `ProcessNextDelayedNonNestableTask`. -/
def doIdleWork (s : State Closure) : State Closure :=
  match runDepth s == 1, s.deferredNonNestableWorkQueue with
  | true, pending :: rest => runTask { s with deferredNonNestableWorkQueue := rest } pending
  | _, _ => s

/-- The first statement of `MessageLoop::DeletePendingTasks`. -/
def beginDeletePendingTasks (s : State Closure) (round : Nat) (reloaded : Bool) : State Closure :=
  { s with frames := [.destructor (.deletePendingTasks round reloaded .work !s.workQueue.isEmpty)] }

/-- The end of a call of `DeletePendingTasks` in the loop of `~MessageLoop`. -/
def endDeletePendingTasks (s : State Closure) (round : Nat) (reloaded didWork : Bool) : State Closure :=
  if reloaded then
    if didWork && round + 1 < 100 then beginDeletePendingTasks s (round + 1) false
    else { s with frames := [.destructor .willDestroyCurrentMessageLoop] }
  else { s with frames := [.destructor (.reloadWorkQueue round)] }

/-- One turn of a loop of `MessageLoop::DeletePendingTasks`, or the step to what follows it. -/
def deletePendingTasks (s : State Closure) (round : Nat) (reloaded : Bool) (stage : Stage) (didWork : Bool) :
    State Closure :=
  match stage with
  | .work =>
    match s.workQueue with
    | [] => { s with frames := [.destructor (.deletePendingTasks round reloaded .deferred
        (didWork || !s.deferredNonNestableWorkQueue.isEmpty))] }
    | pending :: rest =>
      if pending.delayedRunTime ≠ 0 then
        { s with workQueue := rest, delayedWorkQueue := push pending s.delayedWorkQueue }
      else { s with workQueue := rest, destroyed := s.destroyed ++ [pending] }
  | .deferred =>
    match s.deferredNonNestableWorkQueue with
    | [] => { s with frames := [.destructor (.deletePendingTasks round reloaded .delayed
        (didWork || !s.delayedWorkQueue.isEmpty))] }
    | pending :: rest =>
      { s with deferredNonNestableWorkQueue := rest, destroyed := s.destroyed ++ [pending] }
  | .delayed =>
    match s.delayedWorkQueue with
    | [] => endDeletePendingTasks s round reloaded didWork
    | pending :: rest => { s with delayedWorkQueue := rest, destroyed := s.destroyed ++ [pending] }

/-- The queues that are members of the loop are destroyed with it. -/
def destroyMembers (s : State Closure) : State Closure :=
  { s with
    workQueue := []
    deferredNonNestableWorkQueue := []
    delayedWorkQueue := []
    destroyed := s.destroyed ++ (s.workQueue ++ (s.deferredNonNestableWorkQueue ++ s.delayedWorkQueue))
    frames := [.destructor .gone] }

/-- The next step of `~MessageLoop`. -/
def destruct (s : State Closure) : Destruction → Option (State Closure)
  | .deletePendingTasks round reloaded stage didWork =>
    some (deletePendingTasks s round reloaded stage didWork)
  | .reloadWorkQueue round => some (beginDeletePendingTasks (reloadWorkQueue s) round true)
  | .willDestroyCurrentMessageLoop =>
    some { s with messageLoop := false, frames := [.destructor .members] }
  | .members => some (destroyMembers s)
  | .gone => none

/-- The loop thread is outside the loops of `DoWork`: in the pump, a task, a task's destructor or the
code around them. -/
def callable (s : State Closure) : Bool :=
  match s.frames with
  | .doWork _ :: _ => false
  | _ => true

inductive Action (Closure : Type) where
  | tick (now : Int)
  | addToIncomingQueue (closure : Closure) (delay : Int) (nestable : Bool)
  | run
  | leave
  | doWork
  | doDelayedWork
  | doIdleWork
  | advance
  | finishTask
  | setNestableTasksAllowed (allowed : Bool)
  | destroy
  | releaseIncomingQueue

/-- One step of some thread. `advance` goes on in the innermost call, `run` and `leave` begin and end
a `RunLoop`, `destroy` begins `~MessageLoop`, and `releaseIncomingQueue` drops the last reference to
the incoming queue. -/
def step (s : State Closure) : Action Closure → Option (State Closure)
  | .tick now => if s.now ≤ now ∧ now ≤ int64Max then some { s with now } else none
  | .addToIncomingQueue closure delay nestable => some (addToIncomingQueue s closure delay nestable)
  | .run => if callable s ∧ s.messageLoop then some { s with frames := .runLoop :: s.frames } else none
  | .leave =>
    match s.frames with
    | .runLoop :: callers => some { s with frames := callers }
    | _ => none
  | .doWork =>
    if callable s ∧ 0 < runDepth s then
      some { s with frames := if s.nestableTasksAllowed then .doWork .reload :: s.frames else s.frames }
    else none
  | .doDelayedWork => if callable s ∧ 0 < runDepth s then some (doDelayedWork s) else none
  | .doIdleWork => if callable s ∧ 0 < runDepth s then some (doIdleWork s) else none
  | .advance =>
    match s.frames with
    | .doWork .reload :: callers => some (reload s callers)
    | .doWork .drain :: callers => some (drain s callers)
    | [.destructor position] => destruct s position
    | _ => none
  | .finishTask =>
    match s.frames with
    | .task :: .doWork _ :: callers => some { s with nestableTasksAllowed := true, frames := callers }
    | .task :: callers => some { s with nestableTasksAllowed := true, frames := callers }
    | _ => none
  | .setNestableTasksAllowed allowed =>
    if callable s then some { s with nestableTasksAllowed := allowed } else none
  | .destroy =>
    if s.frames = [] then some { beginDeletePendingTasks s 0 false with begun := s.posted.length } else none
  | .releaseIncomingQueue =>
    if s.messageLoop then none
    else some { s with incomingQueue := [], destroyed := s.destroyed ++ s.incomingQueue }

/-!
## How the delegate moves tasks

Each step starts, defers, delays, reloads or destroys tasks in one of the ways that `Moved` lists,
whatever the pump calls and however the calls are nested.
-/

/-- What the moves of tasks change. -/
structure Books (Closure : Type) where
  incoming : List (Task Closure)
  work : List (Task Closure)
  delayed : List (Task Closure)
  deferred : List (Task Closure)
  posted : List (Task Closure)
  started : List (Start Closure)
  destroyed : List (Task Closure)
  nextSequenceNum : Int
  now : Int
  recentTime : Int
  reloaded : Nat

def State.books (s : State Closure) : Books Closure :=
  ⟨s.incomingQueue, s.workQueue, s.delayedWorkQueue, s.deferredNonNestableWorkQueue, s.posted, s.started,
    s.destroyed, s.nextSequenceNum, s.now, s.recentTime, s.reloaded⟩

/-- The step adds a task to the incoming queue. -/
def accepts (s : State Closure) : Action Closure → Bool
  | .addToIncomingQueue .. => s.messageLoop
  | _ => false

/-- A value that `recent_time_` may get. -/
def Known (b : Books Closure) (recent : Int) : Prop := recent = 0 ∨ recent = b.recentTime ∨ recent = b.now

/-- The ways in which one step moves tasks, and whether it accepts one. A task is started at a run
depth. -/
inductive Moved (b : Books Closure) : Bool → Books Closure → Prop where
  | still : Moved b false b
  | tick (later : Int) (passes : b.now ≤ later) : Moved b false { b with now := later }
  | look (recent : Int) (known : Known b recent) : Moved b false { b with recentTime := recent }
  | post (closure : Closure) (delay : Int) (nestable : Bool) (pending : Task Closure)
      (built : pending = ⟨⟨closure, b.posted.length⟩, calculateDelayedRuntime b.now delay, b.nextSequenceNum,
        nestable⟩) :
      Moved b true { b with
        nextSequenceNum := (b.nextSequenceNum + 1).bmod (2 ^ 32)
        incoming := b.incoming ++ [pending]
        posted := b.posted ++ [pending] }
  | reload (empty : b.work = []) :
      Moved b false { b with incoming := [], work := b.incoming, reloaded := b.posted.length }
  | delay (pending : Task Closure) (rest : List (Task Closure)) (front : b.work = pending :: rest)
      (late : pending.delayedRunTime ≠ 0) :
      Moved b false { b with work := rest, delayed := push pending b.delayed }
  | startWork (pending : Task Closure) (rest : List (Task Closure)) (depth : Nat)
      (front : b.work = pending :: rest) (now : pending.delayedRunTime = 0)
      (allowed : pending.nestable = true ∨ depth = 1) :
      Moved b false { b with work := rest, started := b.started ++ [⟨pending, b.now, depth⟩] }
  | deferWork (pending : Task Closure) (rest : List (Task Closure)) (front : b.work = pending :: rest)
      (now : pending.delayedRunTime = 0) (waits : pending.nestable = false) :
      Moved b false { b with work := rest, deferred := b.deferred ++ [pending] }
  | startDelayed (pending : Task Closure) (rest : List (Task Closure)) (depth : Nat) (recent : Int)
      (front : b.delayed = pending :: rest) (known : Known b recent) (ripe : pending.delayedRunTime ≤ recent)
      (allowed : pending.nestable = true ∨ depth = 1) :
      Moved b false { b with
        recentTime := recent
        delayed := rest
        started := b.started ++ [⟨pending, b.now, depth⟩] }
  | deferDelayed (pending : Task Closure) (rest : List (Task Closure)) (recent : Int)
      (front : b.delayed = pending :: rest) (known : Known b recent) (ripe : pending.delayedRunTime ≤ recent)
      (waits : pending.nestable = false) :
      Moved b false { b with recentTime := recent, delayed := rest, deferred := b.deferred ++ [pending] }
  | startDeferred (pending : Task Closure) (rest : List (Task Closure)) (front : b.deferred = pending :: rest) :
      Moved b false { b with deferred := rest, started := b.started ++ [⟨pending, b.now, 1⟩] }
  | destroyWork (pending : Task Closure) (rest : List (Task Closure)) (front : b.work = pending :: rest) :
      Moved b false { b with work := rest, destroyed := b.destroyed ++ [pending] }
  | destroyDeferred (pending : Task Closure) (rest : List (Task Closure)) (front : b.deferred = pending :: rest) :
      Moved b false { b with deferred := rest, destroyed := b.destroyed ++ [pending] }
  | destroyDelayed (pending : Task Closure) (rest : List (Task Closure)) (front : b.delayed = pending :: rest) :
      Moved b false { b with delayed := rest, destroyed := b.destroyed ++ [pending] }
  | destroyMembers :
      Moved b false { b with
        work := []
        deferred := []
        delayed := []
        destroyed := b.destroyed ++ (b.work ++ (b.deferred ++ b.delayed)) }
  | destroyIncoming : Moved b false { b with incoming := [], destroyed := b.destroyed ++ b.incoming }

theorem reloadWorkQueue_moved (s : State Closure) : Moved s.books false (reloadWorkQueue s).books := by
  unfold reloadWorkQueue
  split
  next empty => exact .reload (List.isEmpty_iff.mp empty)
  next => exact .still

theorem addToIncomingQueue_moved (s : State Closure) (closure : Closure) (delay : Int) (nestable : Bool) :
    Moved s.books s.messageLoop (addToIncomingQueue s closure delay nestable).books := by
  unfold addToIncomingQueue
  split
  next alive =>
    rw [alive]
    exact .post closure delay nestable _ rfl
  next dead =>
    rw [Bool.not_eq_true] at dead
    rw [dead]
    exact .still

theorem allowed_of_runs {pending : Task Closure} {depth : Nat} (runs : (pending.nestable || depth == 1) = true) :
    pending.nestable = true ∨ depth = 1 := by
  simpa using runs

theorem waits_of_not_runs {pending : Task Closure} {depth : Nat} (waits : ¬(pending.nestable || depth == 1) = true) :
    pending.nestable = false := by
  simp only [Bool.or_eq_true, not_or, Bool.not_eq_true] at waits
  exact waits.1

theorem drain_moved (s : State Closure) (callers : List Frame) : Moved s.books false (drain s callers).books := by
  unfold drain
  cases front : s.workQueue with
  | nil =>
    simp only [State.books, front]
    exact .still
  | cons pending rest =>
    dsimp only
    split
    next late => exact .delay pending rest front late
    next now =>
      unfold deferOrRunPendingTask
      split
      next runs => exact .startWork pending rest _ front (not_not.mp now) (allowed_of_runs runs)
      next waits => exact .deferWork pending rest front (not_not.mp now) (waits_of_not_runs waits)

theorem doDelayedWork_moved (s : State Closure) : Moved s.books false (doDelayedWork s).books := by
  unfold doDelayedWork
  split
  next top rest allowed front =>
    dsimp only
    have known : Known s.books (if top.delayedRunTime > s.recentTime then s.now else s.recentTime) := by
      split
      · exact .inr (.inr rfl)
      · exact .inr (.inl rfl)
    generalize (if top.delayedRunTime > s.recentTime then s.now else s.recentTime) = recent at known ⊢
    split
    next => exact .look recent known
    next due =>
      have ripe : top.delayedRunTime ≤ recent := by omega
      unfold deferOrRunPendingTask
      split
      next runs => exact .startDelayed top rest _ recent front known ripe (allowed_of_runs runs)
      next waits => exact .deferDelayed top rest recent front known ripe (waits_of_not_runs waits)
  next => exact .look 0 (.inl rfl)

theorem doIdleWork_moved (s : State Closure) : Moved s.books false (doIdleWork s).books := by
  unfold doIdleWork
  split
  next pending rest outermost front =>
    have depth : runDepth s = 1 := by simpa using outermost
    have started : Moved s.books false _ := .startDeferred pending rest front
    rw [← depth] at started
    exact started
  next => exact .still

theorem endDeletePendingTasks_books (s : State Closure) (round : Nat) (reloaded didWork : Bool) :
    (endDeletePendingTasks s round reloaded didWork).books = s.books := by
  unfold endDeletePendingTasks
  split
  · split <;> rfl
  · rfl

theorem deletePendingTasks_moved (s : State Closure) (round : Nat) (reloaded : Bool) (stage : Stage)
    (didWork : Bool) : Moved s.books false (deletePendingTasks s round reloaded stage didWork).books := by
  unfold deletePendingTasks
  cases stage with
  | work =>
    cases front : s.workQueue with
    | nil =>
      simp only [State.books, front]
      exact .still
    | cons pending rest =>
      dsimp only
      split
      next late => exact .delay pending rest front late
      next => exact .destroyWork pending rest front
  | deferred =>
    cases front : s.deferredNonNestableWorkQueue with
    | nil =>
      simp only [State.books, front]
      exact .still
    | cons pending rest => exact .destroyDeferred pending rest front
  | delayed =>
    cases front : s.delayedWorkQueue with
    | nil =>
      dsimp only
      rw [endDeletePendingTasks_books]
      exact .still
    | cons pending rest => exact .destroyDelayed pending rest front

theorem destruct_moved {s t : State Closure} {position : Destruction} (moved : destruct s position = some t) :
    Moved s.books false t.books := by
  cases position with
  | deletePendingTasks round reloaded stage didWork =>
    cases moved
    exact deletePendingTasks_moved s round reloaded stage didWork
  | reloadWorkQueue round =>
    cases moved
    exact reloadWorkQueue_moved s
  | willDestroyCurrentMessageLoop =>
    cases moved
    exact .still
  | members =>
    cases moved
    exact .destroyMembers
  | gone => cases moved

/-- Every step of the machine is one of the moves. -/
theorem step_moved {s t : State Closure} {action : Action Closure} (moved : step s action = some t) :
    Moved s.books (accepts s action) t.books := by
  cases action with
  | tick later =>
    obtain ⟨⟨passes, _⟩, rfl⟩ := Library.of_guarded moved
    exact .tick later passes
  | addToIncomingQueue closure delay nestable =>
    cases moved
    exact addToIncomingQueue_moved s closure delay nestable
  | doDelayedWork =>
    obtain ⟨_, rfl⟩ := Library.of_guarded moved
    exact doDelayedWork_moved s
  | doIdleWork =>
    obtain ⟨_, rfl⟩ := Library.of_guarded moved
    exact doIdleWork_moved s
  | advance =>
    simp only [step] at moved
    split at moved
    · cases moved
      exact reloadWorkQueue_moved s
    · cases moved
      exact drain_moved s _
    · exact destruct_moved moved
    · cases moved
  | leave | finishTask =>
    simp only [step] at moved
    split at moved <;> cases moved <;> exact .still
  | releaseIncomingQueue =>
    simp only [step] at moved
    split at moved
    · cases moved
    · cases moved
      exact .destroyIncoming
  | run | doWork | setNestableTasksAllowed | destroy =>
    obtain ⟨_, rfl⟩ := Library.of_guarded moved
    exact .still

end Libchrome.Base.MessageLoop.Delegate
