import Libchrome.Library.Machine
import Libchrome.Base.Time

/-!
# `MessageLoop` on `MessagePumpDefault`

The message loop with its incoming queue, its pump and its nested run loops as one machine. The
critical sections of `AddToIncomingQueue` are taken by any thread at any time; the loop thread moves
through `MessagePumpDefault::Run`, or executes a task, whose calls are actions of their own.
-/

namespace Libchrome.Base.MessageLoop

/-- `PendingTask`: a task in one of the queues. A `delayed_run_time` of zero is the null time. -/
structure PendingTask (Closure : Type) where
  task : Closure
  delayedRunTime : Int
  sequenceNum : Int
  nestable : Bool
  deriving DecidableEq, Repr

variable {Closure : Type}

/-- `PendingTask::operator<`: inverted, so that the smaller time is on top of the heap. The
difference of the sequence numbers is an `int` and may roll over. -/
def PendingTask.less (task other : PendingTask Closure) : Bool :=
  if task.delayedRunTime < other.delayedRunTime then false
  else if task.delayedRunTime > other.delayedRunTime then true
  else decide ((task.sequenceNum - other.sequenceNum).bmod (2 ^ 32) > 0)

/-- `DelayedTaskQueue::push`, on the list of the tasks in the order in which `top` shows them. -/
def push (task : PendingTask Closure) : List (PendingTask Closure) → List (PendingTask Closure)
  | [] => [task]
  | top :: rest => if top.less task then task :: top :: rest else top :: push task rest

/-- The auto-reset `WaitableEvent`. `waiter` is the waiter the loop thread has enqueued, if any,
and tells whether it has been fired. -/
structure WaitableEvent where
  signaled : Bool := false
  waiter : Option Bool := none
  deriving DecidableEq, Repr

/-- `WaitableEvent::Signal`: wakes the waiter that is still to be fired, else stays signaled. -/
def WaitableEvent.signal (event : WaitableEvent) : WaitableEvent :=
  if event.signaled then event
  else match event.waiter with
    | some false => { event with waiter := some true }
    | _ => { event with signaled := true }

inductive Thread where
  | loop
  | other
  deriving DecidableEq, Repr

/-- Where the holder of `incoming_queue_lock_` stands in `IncomingTaskQueue::ScheduleWork`. -/
inductive Scheduling where
  | signal
  | mark
  deriving DecidableEq, Repr

/-- The three places from which the loop runs a task. -/
inductive Site where
  | doWork
  | doDelayedWork
  | doIdleWork
  deriving DecidableEq, Repr

/-- Where one call of `MessagePumpDefault::Run` stands. -/
inductive Position where
  | doWork
  | reload
  | drain
  | doneWork (didWork : Bool)
  | doneDelayedWork (didWork : Bool)
  | doneIdleWork (didWork : Bool)
  | wait
  | waitFor (maxTime : Option Int)
  | blocked (endTime : Option Int)
  | running (site : Site)
  deriving DecidableEq, Repr

/-- A `RunLoop` that is running, with the position of its call of `MessagePumpDefault::Run`. -/
structure RunLoop where
  position : Position := .doWork
  quitCalled : Bool := false
  quitWhenIdleReceived : Bool := false
  deriving DecidableEq, Repr

/-- The members of the incoming queue, the pump and the loop, the running run loops (the innermost
first) and the clock. `posted` and `started` record what happened: the tasks accepted, with their
delays, and the tasks run, each in order. -/
structure State (Closure : Type) where
  incomingQueue : List (PendingTask Closure) := []
  messageLoop : Bool := true
  nextSequenceNum : Int := 0
  messageLoopScheduled : Bool := false
  alwaysScheduleWork : Bool
  isReadyForScheduling : Bool := false
  incomingQueueLock : Option (Thread × Scheduling) := none
  keepRunning : Bool := true
  event : WaitableEvent := {}
  delayedWorkTime : Int := 0
  workQueue : List (PendingTask Closure) := []
  delayedWorkQueue : List (PendingTask Closure) := []
  deferredNonNestableWorkQueue : List (PendingTask Closure) := []
  nestableTasksAllowed : Bool := true
  recentTime : Int := 0
  runLoops : List RunLoop := []
  now : Int := 0
  posted : List (PendingTask Closure × Int) := []
  started : List (PendingTask Closure) := []
  deriving DecidableEq

/-- `IncomingTaskQueue::CalculateDelayedRuntime`. -/
def calculateDelayedRuntime (now delay : Int) : Int :=
  if delay > 0 then saturatedAdd delay now else 0

/-- `IncomingTaskQueue::AddToIncomingQueue` with `PostPendingTask`, up to the call of `ScheduleWork`,
which the holder of the lock makes next. -/
def addToIncomingQueue (s : State Closure) (caller : Thread) (task : Closure) (delay : Int)
    (nestable : Bool) : State Closure :=
  if s.messageLoop then
    let pending : PendingTask Closure :=
      ⟨task, calculateDelayedRuntime s.now delay, s.nextSequenceNum, nestable⟩
    let wasEmpty := s.incomingQueue.isEmpty
    { s with
      nextSequenceNum := (s.nextSequenceNum + 1).bmod (2 ^ 32)
      incomingQueue := s.incomingQueue ++ [pending]
      posted := s.posted ++ [(pending, delay)]
      incomingQueueLock :=
        if s.isReadyForScheduling && (s.alwaysScheduleWork || (!s.messageLoopScheduled && wasEmpty))
        then some (caller, .signal) else none }
  else s

/-- `IncomingTaskQueue::StartScheduling`, up to the call of `ScheduleWork`. -/
def startScheduling (s : State Closure) : State Closure :=
  { s with
    isReadyForScheduling := true
    incomingQueueLock := if s.incomingQueue.isEmpty then none else some (.loop, .signal) }

/-- `MessagePumpDefault::ScheduleWork`. -/
def scheduleWork (s : State Closure) : State Closure :=
  { s with event := s.event.signal }

/-- The two statements of `IncomingTaskQueue::ScheduleWork`, the second one at the end of the
critical section. -/
def continueScheduling (s : State Closure) : Option (State Closure) :=
  match s.incomingQueueLock with
  | none => none
  | some (holder, .signal) => some { scheduleWork s with incomingQueueLock := some (holder, .mark) }
  | some (_, .mark) => some { s with messageLoopScheduled := true, incomingQueueLock := none }

/-- The innermost run loop moves to a position. -/
def moveTo (s : State Closure) (position : Position) : State Closure :=
  match s.runLoops with
  | [] => s
  | top :: rest => { s with runLoops := { top with position } :: rest }

/-- `MessageLoop::RunTask`, up to the start of the task. -/
def runTask (s : State Closure) (site : Site) (pending : PendingTask Closure) : State Closure :=
  moveTo { s with nestableTasksAllowed := false, started := s.started ++ [pending] } (.running site)

/-- `MessageLoop::DeferOrRunPendingTask`; after a deferred task the caller goes on at `deferred`. -/
def deferOrRunPendingTask (s : State Closure) (site : Site) (deferred : Position)
    (pending : PendingTask Closure) : State Closure :=
  if pending.nestable || s.runLoops.length == 1 then runTask s site pending
  else moveTo { s with
    deferredNonNestableWorkQueue := s.deferredNonNestableWorkQueue ++ [pending] } deferred

/-- `MessageLoop::ReloadWorkQueue` with `IncomingTaskQueue::ReloadWorkQueue`; the incoming queue is
locked only when the work queue is empty. -/
def reloadWorkQueue (s : State Closure) : Option (State Closure) :=
  if s.workQueue.isEmpty then
    if s.incomingQueueLock.isSome then none
    else if s.incomingQueue.isEmpty then
      some (moveTo { s with messageLoopScheduled := false } (.doneWork false))
    else some (moveTo { s with incomingQueue := [], workQueue := s.incomingQueue } .drain)
  else some (moveTo s .drain)

/-- One turn of the inner loop of `MessageLoop::DoWork`. -/
def drain [DecidableEq Closure] (s : State Closure) : State Closure :=
  match s.workQueue with
  | [] => moveTo s .reload
  | pending :: rest =>
    let next : Position := if rest.isEmpty then .reload else .drain
    if pending.delayedRunTime ≠ 0 then
      let delayed := push pending s.delayedWorkQueue
      moveTo { s with
        workQueue := rest
        delayedWorkQueue := delayed
        delayedWorkTime :=
          if delayed.head?.map (·.task) = some pending.task then pending.delayedRunTime
          else s.delayedWorkTime } next
    else deferOrRunPendingTask { s with workQueue := rest } .doWork next pending

/-- `recent_time_` after `DoDelayedWork` has compared it with the time of the next task. -/
def recentTimeAt (s : State Closure) (nextRunTime : Int) : Int :=
  if nextRunTime > s.recentTime then s.now else s.recentTime

/-- `MessageLoop::DoDelayedWork`, whose result is added to `didWork`. -/
def doDelayedWork (s : State Closure) (didWork : Bool) : State Closure :=
  match s.nestableTasksAllowed, s.delayedWorkQueue with
  | true, top :: rest =>
    let recent := recentTimeAt s top.delayedRunTime
    if top.delayedRunTime > recent then
      moveTo { s with recentTime := recent, delayedWorkTime := top.delayedRunTime }
        (.doneDelayedWork didWork)
    else
      deferOrRunPendingTask { s with
        recentTime := recent
        delayedWorkQueue := rest
        delayedWorkTime := (rest.head?.map (·.delayedRunTime)).getD s.delayedWorkTime }
        .doDelayedWork (.doneDelayedWork didWork) top
  | _, _ => moveTo { s with recentTime := 0, delayedWorkTime := 0 } (.doneDelayedWork didWork)

/-- `MessageLoop::DoIdleWork` with `ProcessNextDelayedNonNestableTask`. -/
def doIdleWork (s : State Closure) (quitWhenIdleReceived : Bool) : State Closure :=
  match s.runLoops.length == 1, s.deferredNonNestableWorkQueue with
  | true, pending :: rest => runTask { s with deferredNonNestableWorkQueue := rest } .doIdleWork pending
  | _, _ =>
    moveTo { s with keepRunning := s.keepRunning && !quitWhenIdleReceived } (.doneIdleWork false)

/-- The end of `MessagePumpDefault::Run` and `RunLoop::AfterRun`. -/
def leaveRun (s : State Closure) : State Closure :=
  { s with
    runLoops := s.runLoops.tail
    keepRunning := !(s.runLoops.tail.head?.any (·.quitCalled)) }

/-- The wait of `MessagePumpDefault::Run`. -/
def beginWait (s : State Closure) : State Closure :=
  if s.delayedWorkTime = 0 then moveTo s (.waitFor none)
  else if s.delayedWorkTime - s.now > 0 then moveTo s (.waitFor (some (s.delayedWorkTime - s.now)))
  else moveTo { s with delayedWorkTime := 0 } .doWork

/-- `WaitableEvent::TimedWait`, up to where the thread blocks. -/
def timedWait (s : State Closure) (maxTime : Option Int) : State Closure :=
  if s.event.signaled then moveTo { s with event := { s.event with signaled := false } } .doWork
  else moveTo { s with event := { s.event with waiter := some false } }
    (.blocked (maxTime.map (s.now + ·)))

/-- A blocked thread returns from `TimedWait` once its waiter is fired or its time is over. -/
def wakeUp (s : State Closure) (endTime : Option Int) : Option (State Closure) :=
  if s.event.waiter = some true ∨ endTime.any (· ≤ s.now) then
    some (moveTo { s with event := { s.event with waiter := none } } .doWork)
  else none

/-- The next step of the loop thread in the innermost call of `MessagePumpDefault::Run`. -/
def advance [DecidableEq Closure] (s : State Closure) (top : RunLoop) : Option (State Closure) :=
  match top.position with
  | .doWork => some (moveTo s (if s.nestableTasksAllowed then .reload else .doneWork false))
  | .reload => reloadWorkQueue s
  | .drain => some (drain s)
  | .doneWork didWork => some (if s.keepRunning then doDelayedWork s didWork else leaveRun s)
  | .doneDelayedWork didWork =>
    some (if s.keepRunning then
      if didWork then moveTo s .doWork else doIdleWork s top.quitWhenIdleReceived
    else leaveRun s)
  | .doneIdleWork didWork =>
    some (if s.keepRunning then moveTo s (if didWork then .doWork else .wait) else leaveRun s)
  | .wait => some (beginWait s)
  | .waitFor maxTime => some (timedWait s maxTime)
  | .blocked endTime => wakeUp s endTime
  | .running _ => none

/-- Where `MessagePumpDefault::Run` goes on after a task: the function that ran it returns true. -/
def Site.return : Site → Position
  | .doWork => .doneWork true
  | .doDelayedWork => .doneDelayedWork true
  | .doIdleWork => .doneIdleWork true

/-- The loop thread executes code of its own: a task, or what surrounds the outermost `Run`. -/
def inTask (s : State Closure) : Bool :=
  !(s.incomingQueueLock.any (·.1 = .loop)) &&
    match s.runLoops with
    | [] => true
    | top :: _ => match top.position with
      | .running _ => true
      | _ => false

inductive Action (Closure : Type) where
  | tick (now : Int)
  | addToIncomingQueue (caller : Thread) (task : Closure) (delay : Int) (nestable : Bool)
  | continueScheduling
  | startScheduling
  | advance
  | finishTask
  | run (untilIdle : Bool)
  | quit (depth : Nat)
  | quitNow
  | quitWhenIdle
  | setNestableTasksAllowed (allowed : Bool)
  | willDestroyCurrentMessageLoop

/-- The innermost run loop changes. -/
def updateTop (s : State Closure) (change : RunLoop → RunLoop) : State Closure :=
  { s with runLoops := s.runLoops.modifyHead change }

/-- One step of some thread. -/
def step [DecidableEq Closure] (s : State Closure) : Action Closure → Option (State Closure)
  | .tick now => if s.now ≤ now ∧ now ≤ int64Max then some { s with now } else none
  | .addToIncomingQueue caller task delay nestable =>
    if s.incomingQueueLock = none ∧ (caller = .loop → inTask s) then
      some (addToIncomingQueue s caller task delay nestable)
    else none
  | .continueScheduling => continueScheduling s
  | .startScheduling =>
    if s.incomingQueueLock = none ∧ s.runLoops = [] ∧ s.messageLoop ∧ !s.isReadyForScheduling then
      some (startScheduling s)
    else none
  | .advance =>
    match s.runLoops with
    | [] => none
    | top :: _ => if s.incomingQueueLock.any (·.1 = .loop) then none else advance s top
  | .finishTask =>
    match s.runLoops with
    | ⟨.running site, _, _⟩ :: _ =>
      if inTask s then some (moveTo { s with nestableTasksAllowed := true } site.return) else none
    | _ => none
  | .run untilIdle =>
    if inTask s ∧ s.messageLoop ∧ s.isReadyForScheduling then
      some { s with runLoops := { quitWhenIdleReceived := untilIdle } :: s.runLoops }
    else none
  | .quit depth =>
    if inTask s ∧ depth < s.runLoops.length then
      some { s with
        runLoops := s.runLoops.modify depth fun runLoop => { runLoop with quitCalled := true }
        keepRunning := s.keepRunning && depth ≠ 0 }
    else none
  | .quitNow =>
    if inTask s ∧ s.runLoops ≠ [] then some { s with keepRunning := false } else none
  | .quitWhenIdle =>
    if inTask s ∧ s.runLoops ≠ [] then
      some (updateTop s fun runLoop => { runLoop with quitWhenIdleReceived := true })
    else none
  | .setNestableTasksAllowed allowed =>
    if inTask s ∧ s.isReadyForScheduling then
      some { (if allowed then scheduleWork s else s) with nestableTasksAllowed := allowed }
    else none
  | .willDestroyCurrentMessageLoop =>
    if s.incomingQueueLock = none ∧ s.runLoops = [] then some { s with messageLoop := false } else none

end Libchrome.Base.MessageLoop
