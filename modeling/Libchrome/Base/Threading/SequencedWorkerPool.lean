import Mathlib.Data.Finset.Insert
import Mathlib.Data.Finset.Erase
import Libchrome.Library.Machine
import Libchrome.Base.Time

/-!
# `SequencedWorkerPool::Inner`

The pool as a machine whose steps are the lock-protected sections of `Inner`, cut where one function
calls the next: `lock` is the worker that is inside a section after a step. A worker waits, deletes
and runs tasks without the lock; a call of `PostTask` reads the clock before it takes the lock.
-/

namespace Libchrome.Base.SequencedWorkerPool

inductive WorkerShutdown where
  | continueOnShutdown
  | skipOnShutdown
  | blockShutdown
  deriving DecidableEq, Repr

structure SequencedTask where
  sequenceTokenId : Nat
  sequenceTaskNumber : Nat
  shutdownBehavior : WorkerShutdown
  timeToRun : Int
  deriving DecidableEq, Repr

/-- `SequencedTaskLessThan`. -/
def SequencedTask.lessThan (lhs rhs : SequencedTask) : Bool :=
  if lhs.timeToRun < rhs.timeToRun then true
  else if lhs.timeToRun > rhs.timeToRun then false
  else decide (lhs.sequenceTaskNumber < rhs.sequenceTaskNumber)

/-- `pending_tasks_.insert`, on the list of the tasks in the order of the set. -/
def insertTask (task : SequencedTask) : List SequencedTask → List SequencedTask
  | [] => [task]
  | first :: rest => if first.lessThan task then first :: insertTask task rest else task :: first :: rest

/-- Where a worker stands in `ThreadLoop`. At `top` it is about to call `HandleCleanup`, at `work`
`GetWork`; `cleaner`, `idler` and `finisher` are the waits of `HandleCleanup`. -/
inductive Position where
  | top
  | work
  | found (task : SequencedTask)
  | processing (task : SequencedTask)
  | processed (task : SequencedTask)
  | deleting
  | idle
  | cleaner
  | idler
  | finisher
  | exited
  deriving DecidableEq, Repr

structure Worker where
  position : Position := .top
  isProcessingTask : Bool := false
  taskSequenceToken : Nat := 0
  taskShutdownBehavior : WorkerShutdown := .blockShutdown
  deriving DecidableEq, Repr

inductive CleanupState where
  | requested
  | starting
  | running
  | finishing
  | done
  deriving DecidableEq, Repr

/-- The token of a post: given, or looked up by name inside the lock. -/
inductive TokenArgument (Name : Type) where
  | token (id : Nat)
  | named (name : Name)

/-- A call of `PostTask` that has read the clock and has not taken the lock yet. `caller` is the
worker that calls, if any. `begun` records how many tasks had been accepted when the call began. -/
structure Call (Name : Type) where
  caller : Option Nat
  argument : TokenArgument Name
  shutdownBehavior : WorkerShutdown
  delay : Int
  timeToRun : Int
  begun : Nat

/-- A task as it was accepted, with the delay of its post. -/
structure Accepted where
  task : SequencedTask
  delay : Int
  begun : Nat
  deriving DecidableEq, Repr

/-- The first call of `Shutdown`: not made, waiting for `CanShutdown`, or past its last check. -/
inductive ShutdownCall where
  | notMade
  | waiting
  | passed
  deriving DecidableEq, Repr

/-- The members of `Inner`. The counters are integers, so that a decrement of zero would show.
`accepted`, `started`, `acceptedAfterShutdown` and `allowedAfterShutdown` record what happened. -/
structure State (Name : Type) where
  maxThreads : Nat
  lock : Option Nat := none
  lastSequenceNumber : Nat := 0
  namedSequenceTokens : List (Name × Nat) := []
  threads : List Worker := []
  threadBeingCreated : Bool := false
  waitingThreadCount : Int := 0
  blockingShutdownThreadCount : Int := 0
  pendingTasks : List SequencedTask := []
  nextSequenceTaskNumber : Nat := 0
  blockingShutdownPendingTaskCount : Int := 0
  currentSequences : Finset Nat := ∅
  shutdownCalled : Bool := false
  maxBlockingTasksAfterShutdown : Int := 0
  cleanupState : CleanupState := .done
  cleanupIdlers : Int := 0
  shutdownCall : ShutdownCall := .notMade
  calls : List (Call Name) := []
  now : Int := 0
  accepted : List Accepted := []
  started : List Nat := []
  acceptedAfterShutdown : Nat := 0
  allowedAfterShutdown : Int := 0

variable {Name : Type}

def State.place (s : State Name) (i : Nat) (worker : Worker) (position : Position) : State Name :=
  { s with threads := s.threads.set i { worker with position } }

/-- `IsSequenceTokenRunnable`. -/
def isSequenceTokenRunnable (s : State Name) (id : Nat) : Bool :=
  id = 0 || id ∉ s.currentSequences

/-- `PrepareToStartAdditionalThreadIfHelpful`; the index of the new thread only names it. -/
def prepareToStartAdditionalThreadIfHelpful (s : State Name) : State Name :=
  if !s.shutdownCalled && !s.threadBeingCreated && s.cleanupState = .done &&
      s.threads.length < s.maxThreads && s.waitingThreadCount = 0 &&
      s.pendingTasks.any (fun task => isSequenceTokenRunnable s task.sequenceTokenId) then
    { s with threadBeingCreated := true }
  else s

/-- `GetSequenceToken` takes the next number of a counter shared by all pools. -/
def getSequenceToken (s : State Name) : Nat × State Name :=
  (s.lastSequenceNumber + 1, { s with lastSequenceNumber := s.lastSequenceNumber + 1 })

/-- `LockedGetNamedTokenID`. -/
def lockedGetNamedTokenId [DecidableEq Name] (s : State Name) (name : Name) : Nat × State Name :=
  match s.namedSequenceTokens.lookup name with
  | some id => (id, s)
  | none =>
    let (id, s) := getSequenceToken s
    (id, { s with namedSequenceTokens := (name, id) :: s.namedSequenceTokens })

/-- The task that the thread of the caller is running, as `PostTask` asks for it. -/
def runningBehavior (s : State Name) (caller : Option Nat) : Option WorkerShutdown :=
  (caller.bind (s.threads[·]?)).bind fun worker =>
    if worker.isProcessingTask then some worker.taskShutdownBehavior else none

/-- The first test of the critical section of `PostTask`. -/
def rejects (s : State Name) (call : Call Name) : Bool :=
  s.shutdownCalled &&
    (call.shutdownBehavior ≠ .blockShutdown ||
      (runningBehavior s call.caller).any (· ≠ .blockShutdown) ||
      s.maxBlockingTasksAfterShutdown ≤ 0)

/-- The token of a post, with the named token rules. -/
def tokenOf [DecidableEq Name] (s : State Name) : TokenArgument Name → Nat × State Name
  | .token id => (id, s)
  | .named name => lockedGetNamedTokenId s name

/-- A task enters the pending ones. -/
def enqueue (s : State Name) (call : Call Name) (id : Nat) : State Name :=
  let task : SequencedTask := ⟨id, s.nextSequenceTaskNumber, call.shutdownBehavior, call.timeToRun⟩
  { s with
    nextSequenceTaskNumber := s.nextSequenceTaskNumber + 1
    pendingTasks := insertTask task s.pendingTasks
    blockingShutdownPendingTaskCount :=
      s.blockingShutdownPendingTaskCount + if call.shutdownBehavior = .blockShutdown then 1 else 0
    accepted := s.accepted ++ [⟨task, call.delay, call.begun⟩] }

/-- The critical section of `PostTask`. -/
def postTask [DecidableEq Name] (s : State Name) (call : Call Name) : State Name :=
  if rejects s call then s
  else
    let s := if s.shutdownCalled then
      { s with
        maxBlockingTasksAfterShutdown := s.maxBlockingTasksAfterShutdown - 1
        acceptedAfterShutdown := s.acceptedAfterShutdown + 1 }
      else s
    let (id, s) := tokenOf s call.argument
    prepareToStartAdditionalThreadIfHelpful (enqueue s call id)

inductive GetWorkStatus where
  | found (task : SequencedTask)
  | notFound
  | wait (waitTime : Int)
  deriving DecidableEq, Repr

/-- What `GetWork` returns, leaves pending and hands out to be deleted. -/
structure Work where
  status : GetWorkStatus
  pending : List SequencedTask
  deleteTheseOutsideLock : List SequencedTask
  deriving DecidableEq, Repr

/-- The loop of `GetWork` over the pending tasks. -/
def scan (s : State Name) : List SequencedTask → Work
  | [] => ⟨.notFound, [], []⟩
  | task :: rest =>
    if !isSequenceTokenRunnable s task.sequenceTokenId then
      let work := scan s rest
      { work with pending := task :: work.pending }
    else if s.shutdownCalled && task.shutdownBehavior ≠ .blockShutdown then
      let work := scan s rest
      { work with deleteTheseOutsideLock := task :: work.deleteTheseOutsideLock }
    else if task.timeToRun > s.now then
      if s.cleanupState = .running then ⟨.wait (task.timeToRun - s.now), rest, [task]⟩
      else ⟨.wait (task.timeToRun - s.now), task :: rest, []⟩
    else ⟨.found task, rest, []⟩

/-- `GetWork`, with the counter that it adjusts for the task it takes. -/
def getWork (s : State Name) : Work × State Name :=
  let work := scan s s.pendingTasks
  (work, { s with
    pendingTasks := work.pending
    blockingShutdownPendingTaskCount := match work.status with
      | .found task =>
        s.blockingShutdownPendingTaskCount - if task.shutdownBehavior = .blockShutdown then 1 else 0
      | _ => s.blockingShutdownPendingTaskCount })

/-- `WillRunWorkerTask`. -/
def willRunWorkerTask (s : State Name) (task : SequencedTask) : State Name :=
  prepareToStartAdditionalThreadIfHelpful { s with
    currentSequences :=
      if task.sequenceTokenId ≠ 0 then insert task.sequenceTokenId s.currentSequences
      else s.currentSequences
    blockingShutdownThreadCount := s.blockingShutdownThreadCount +
      if task.shutdownBehavior ≠ .continueOnShutdown then 1 else 0 }

/-- `DidRunWorkerTask`. -/
def didRunWorkerTask (s : State Name) (task : SequencedTask) : State Name :=
  { s with
    blockingShutdownThreadCount := s.blockingShutdownThreadCount -
      if task.shutdownBehavior ≠ .continueOnShutdown then 1 else 0
    currentSequences :=
      if task.sequenceTokenId ≠ 0 then s.currentSequences.erase task.sequenceTokenId
      else s.currentSequences }

/-- `CanShutdown`. -/
def canShutdown (s : State Name) : Bool :=
  !s.threadBeingCreated && s.blockingShutdownThreadCount = 0 && s.blockingShutdownPendingTaskCount = 0

/-- The condition on which `HandleCleanup` waits for the other threads to idle. -/
def mustWaitForIdlers (s : State Name) : Bool :=
  s.threadBeingCreated || s.cleanupIdlers ≠ s.threads.length - 1

/-- A worker gives the lock up at a position where it waits. -/
def release (s : State Name) (i : Nat) (worker : Worker) (position : Position) : State Name :=
  { s.place i worker position with lock := none }

/-- The wait of the thread that cleans up, and what follows it. -/
def awaitIdlers (s : State Name) (i : Nat) (worker : Worker) : State Name :=
  if mustWaitForIdlers s then release s i worker .cleaner
  else { s.place i worker .work with cleanupState := .running }

/-- The wait for the idlers to wake up, and what follows it. -/
def awaitFinish (s : State Name) (i : Nat) (worker : Worker) : State Name :=
  if s.cleanupIdlers ≠ 0 then release s i worker .finisher
  else { s.place i worker .work with
    cleanupState := if s.cleanupState = .finishing then .done else s.cleanupState }

/-- `HandleCleanup`, from its start or from one of its waits, to a wait or to its end. -/
def handleCleanup (s : State Name) (i : Nat) (worker : Worker) : Option (State Name) :=
  match worker.position with
  | .top => some (match s.cleanupState with
    | .done | .running => s.place i worker .work
    | .requested => awaitIdlers { s with cleanupState := .starting } i worker
    | .starting => release { s with cleanupIdlers := s.cleanupIdlers + 1 } i worker .idler
    | .finishing => awaitFinish s i worker)
  | .cleaner => some (awaitIdlers s i worker)
  | .idler => some (if s.cleanupState ≠ .finishing then release s i worker .idler
    else { s.place i worker .work with cleanupIdlers := s.cleanupIdlers - 1 })
  | .finisher => some (awaitFinish s i worker)
  | _ => none

/-- One turn of the loop of `ThreadLoop`, from the call of `GetWork` to where the lock is given up. -/
def threadLoop (s : State Name) (i : Nat) (worker : Worker) : Option (State Name) :=
  let (work, s) := getWork s
  match work.status with
  | .found task => some (release (willRunWorkerTask s task) i worker (.found task))
  | status =>
    if s.cleanupState = .running then
      match status with
      | .wait _ => some (release s i worker .deleting)
      | _ =>
        -- CHECK(delete_these_outside_lock.empty())
        if work.deleteTheseOutsideLock.isEmpty then
          some { s.place i worker .top with cleanupState := .finishing }
        else none
    else if s.shutdownCalled ∧ s.blockingShutdownPendingTaskCount = 0 then
      some (release s i worker .exited)
    else if work.deleteTheseOutsideLock.isEmpty then
      some (release { s with waitingThreadCount := s.waitingThreadCount + 1 } i worker .idle)
    else some (release s i worker .deleting)

/-- A worker takes the lock again after a wait or a deletion. -/
def wake (s : State Name) (i : Nat) (worker : Worker) : Option (State Name) :=
  match worker.position with
  | .deleting => some { s.place i worker .top with lock := some i }
  | .idle => some { s.place i worker .top with
      lock := some i, waitingThreadCount := s.waitingThreadCount - 1 }
  | .cleaner | .idler | .finisher => some { s with lock := some i }
  | _ => none

/-- `set_running_task_info` and the start of the task. -/
def runTask (s : State Name) (i : Nat) (worker : Worker) : Option (State Name) :=
  match worker.position with
  | .found task => some { s with
      threads := s.threads.set i {
        position := .processing task
        isProcessingTask := true
        taskSequenceToken := task.sequenceTokenId
        taskShutdownBehavior := task.shutdownBehavior }
      started := s.started ++ [task.sequenceTaskNumber] }
  | _ => none

/-- The end of the task and `reset_running_task_info`; the task gets the token that the worker has. -/
def finishTask (s : State Name) (i : Nat) (worker : Worker) : Option (State Name) :=
  match worker.position with
  | .processing task => some { s with
      threads := s.threads.set i { worker with
        position := .processed { task with sequenceTokenId := worker.taskSequenceToken }
        isProcessingTask := false } }
  | _ => none

/-- `GetSequencedTaskRunnerForCurrentThread` with `SetRunningTaskInfoForCurrentThread`: a running
task without a token gets a new one. -/
def setRunningTaskInfo (s : State Name) (i : Nat) (worker : Worker) : Option (State Name) :=
  match worker.position with
  | .processing _ =>
    if worker.taskSequenceToken = 0 then
      let (id, s) := getSequenceToken s
      some { s with
        threads := s.threads.set i { worker with taskSequenceToken := id }
        currentSequences := insert id s.currentSequences }
    else none
  | _ => none

/-- The worker is inside a call of `PostTask`. -/
def posting (s : State Name) (i : Nat) : Bool :=
  s.calls.any fun call => call.caller = some i

/-- Where a worker executes its task or destroys closures. -/
def Position.runsForeignCode : Position → Bool
  | .found _ | .processing _ | .deleting => true
  | _ => false

/-- A worker may call `PostTask` from foreign code, one call at a time. -/
def mayPost (s : State Name) (i : Nat) : Bool :=
  !posting s i && (s.threads[i]?).any fun worker => worker.position.runsForeignCode

inductive Action (Name : Type) where
  | tick (now : Int)
  | getSequenceToken
  | getNamedSequenceToken (name : Name)
  | beginPostTask (caller : Option Nat) (argument : TokenArgument Name)
      (shutdownBehavior : WorkerShutdown) (delay : Int)
  | postTask (k : Nat)
  | enterThreadLoop
  | handleCleanup (i : Nat)
  | threadLoop (i : Nat)
  | wake (i : Nat)
  | runTask (i : Nat)
  | setRunningTaskInfo (i : Nat)
  | finishTask (i : Nat)
  | didRunWorkerTask (i : Nat)
  | shutdown (maxNewBlockingTasksAfterShutdown : Int)
  | checkCanShutdown
  | cleanupForTesting

/-- A post uses a token that has been issued, or none. -/
def issued (s : State Name) : TokenArgument Name → Bool
  | .token id => id ≤ s.lastSequenceNumber
  | .named _ => true

/-- The first section of `Shutdown`, in its first call. -/
def beginShutdown (s : State Name) (maxNewBlockingTasksAfterShutdown : Int) : State Name :=
  let s := { s with
    shutdownCalled := true
    maxBlockingTasksAfterShutdown := maxNewBlockingTasksAfterShutdown
    allowedAfterShutdown := maxNewBlockingTasksAfterShutdown }
  { s with shutdownCall := if canShutdown s then .passed else .waiting }

/-- One step of some thread. -/
def step [DecidableEq Name] (s : State Name) : Action Name → Option (State Name)
  | .tick now => if s.now ≤ now then some { s with now } else none
  | .getSequenceToken => some (getSequenceToken s).2
  | .getNamedSequenceToken name =>
    if s.lock = none then some (lockedGetNamedTokenId s name).2 else none
  | .beginPostTask caller argument shutdownBehavior delay =>
    if caller.all (mayPost s) ∧ issued s argument then
      some { s with calls := s.calls ++
        [⟨caller, argument, shutdownBehavior, delay, saturatedAdd delay s.now, s.accepted.length⟩] }
    else none
  | .postTask k =>
    match s.calls[k]? with
    | some call => if s.lock = none then some (postTask { s with calls := s.calls.eraseIdx k } call) else none
    | none => none
  | .enterThreadLoop =>
    if s.lock = none ∧ s.threadBeingCreated then
      some { s with
        threadBeingCreated := false
        threads := s.threads ++ [{}]
        lock := some s.threads.length }
    else none
  | .handleCleanup i => if s.lock = some i then (s.threads[i]?).bind (handleCleanup s i) else none
  | .threadLoop i =>
    if s.lock = some i ∧ (s.threads[i]?).any (·.position = .work) then
      (s.threads[i]?).bind (threadLoop s i)
    else none
  | .wake i => if s.lock = none ∧ !posting s i then (s.threads[i]?).bind (wake s i) else none
  | .runTask i => if !posting s i then (s.threads[i]?).bind (runTask s i) else none
  | .setRunningTaskInfo i =>
    if s.lock = none ∧ !posting s i then (s.threads[i]?).bind (setRunningTaskInfo s i) else none
  | .finishTask i => if !posting s i then (s.threads[i]?).bind (finishTask s i) else none
  | .didRunWorkerTask i =>
    if s.lock = none then
      (s.threads[i]?).bind fun worker => match worker.position with
        | .processed task =>
          some { (didRunWorkerTask s task).place i worker .top with lock := some i }
        | _ => none
    else none
  | .shutdown maxNew =>
    -- CHECK_EQ(CLEANUP_DONE, cleanup_state_)
    if s.lock = none ∧ s.cleanupState = .done then
      some (if s.shutdownCalled then s else beginShutdown s maxNew)
    else none
  | .checkCanShutdown =>
    if s.lock = none ∧ s.shutdownCall = .waiting ∧ canShutdown s then
      some { s with shutdownCall := .passed }
    else none
  | .cleanupForTesting =>
    -- CHECK_EQ(CLEANUP_DONE, cleanup_state_)
    if s.lock = none ∧ s.cleanupState = .done then
      some (if s.shutdownCalled ∨ (s.pendingTasks = [] ∧ s.waitingThreadCount = s.threads.length) then s
        else { s with cleanupState := .requested, cleanupIdlers := 0 })
    else none

/-- A new pool. -/
def initial (maxThreads : Nat) : State Name :=
  { maxThreads }

end Libchrome.Base.SequencedWorkerPool
