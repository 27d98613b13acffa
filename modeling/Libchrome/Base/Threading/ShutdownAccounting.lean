import Mathlib.Tactic.SplitIfs
import Libchrome.Library.Positions
import Libchrome.Base.Threading.PoolSections

/-!
# What the counters of the pool count

The two counters of `CanShutdown` are adjusted where a task is posted, taken, begun and ended; they
equal the numbers of pending tasks and of running tasks that block the shutdown in every state. So the
last check of `Shutdown` finds nothing left that it has to wait for.
-/

namespace Libchrome.Base.SequencedWorkerPool

open Library

variable {Name : Type}

def SequencedTask.blocks (task : SequencedTask) : Bool :=
  task.shutdownBehavior = .blockShutdown

/-- The worker runs a task that is not `CONTINUE_ON_SHUTDOWN`. -/
def Worker.holdsShutdown (worker : Worker) : Bool :=
  worker.position.task.any (·.shutdownBehavior ≠ .continueOnShutdown)

/-- The check of `PostTask` on its arguments: a delayed task is skipped on shutdown. -/
def DelaysAreSkippable (_ : State Name) : Action Name → Prop
  | .beginPostTask _ _ shutdownBehavior delay => delay = 0 ∨ shutdownBehavior = .skipOnShutdown
  | _ => True

structure Accounted (maxThreads : Nat) (s : State Name) : Prop where
  pendingCount : s.blockingShutdownPendingTaskCount = s.pendingTasks.countP (·.blocks)
  threadCount : s.blockingShutdownThreadCount = s.threads.countP (·.holdsShutdown)
  fixed : s.maxThreads = maxThreads
  threadBound : s.threads.length + s.threadBeingCreated.toNat ≤ maxThreads
  ripe : ∀ task ∈ s.pendingTasks, task.shutdownBehavior ≠ .skipOnShutdown → task.timeToRun ≤ s.now
  callsRipe : ∀ call ∈ s.calls, call.shutdownBehavior ≠ .skipOnShutdown → call.timeToRun ≤ s.now
  quota : (s.acceptedAfterShutdown : Int) + max 0 s.maxBlockingTasksAfterShutdown ≤
    max 0 s.allowedAfterShutdown
  before : s.shutdownCalled = false → s.acceptedAfterShutdown = 0
  clock : 0 ≤ s.now

theorem Accounted.prepare {maxThreads : Nat} {s : State Name} (accounted : Accounted maxThreads s) :
    Accounted maxThreads (prepareToStartAdditionalThreadIfHelpful s) := by
  rcases prepare_cases s with same | ⟨started, notCreated, room⟩
  · rw [same]
    exact accounted
  · rw [started]
    have fixed := accounted.fixed
    refine { accounted with threadBound := ?_ }
    simp only [Bool.toNat_true]
    omega

/-- A worker that moves without taking up or ending a task is counted as before. -/
theorem Accounted.move {maxThreads : Nat} {s t : State Name} (accounted : Accounted maxThreads s)
    {i : Nat} {worker : Worker} (next : Worker) (found : s.threads[i]? = some worker)
    (same : next.holdsShutdown = worker.holdsShutdown) (threads : t.threads = s.threads.set i next)
    (kept : t = { s with threads := t.threads, lock := t.lock, cleanupState := t.cleanupState
                         cleanupIdlers := t.cleanupIdlers, waitingThreadCount := t.waitingThreadCount
                         currentSequences := t.currentSequences, lastSequenceNumber := t.lastSequenceNumber
                         started := t.started }) : Accounted maxThreads t := by
  have count := countP_exchange (p := (·.holdsShutdown)) (y := next) found
  rw [kept]
  refine { accounted with threadCount := ?_, threadBound := ?_ }
  · have threadCount := accounted.threadCount
    simp only [threads]
    rw [same] at count
    omega
  · simpa only [threads, List.length_set] using accounted.threadBound

def GetWorkStatus.task : GetWorkStatus → Option SequencedTask
  | .found task => some task
  | _ => none

theorem scan_count {s : State Name} {tasks : List SequencedTask}
    (ripe : ∀ task ∈ tasks, task.shutdownBehavior ≠ .skipOnShutdown → task.timeToRun ≤ s.now) :
    (scan s tasks).pending.countP (·.blocks) + ((scan s tasks).status.task.any (·.blocks)).toNat =
      tasks.countP (·.blocks) := by
  induction tasks with
  | nil => rfl
  | cons first rest ih =>
    have rest := ih fun task member => ripe task (List.mem_cons_of_mem _ member)
    unfold scan
    split
    · simp only [List.countP_cons]
      omega
    · split
      next skipped =>
        have passes : first.blocks = false := by
          simp only [Bool.and_eq_true, decide_eq_true_eq] at skipped
          exact decide_eq_false skipped.2
        simp only [List.countP_cons, passes]
        simpa using rest
      next =>
        split
        next early =>
          have passes : first.blocks = false := by
            refine decide_eq_false fun blocks => ?_
            have due := ripe first List.mem_cons_self (by simp [blocks])
            omega
          split
          · simp [passes, GetWorkStatus.task]
          · simp [GetWorkStatus.task]
        next => cases blocks : first.blocks <;> simp [GetWorkStatus.task, blocks]

/-- `GetWork` leaves the books as they would be without the task that it hands out. -/
theorem Accounted.getWork {maxThreads : Nat} {s : State Name} (accounted : Accounted maxThreads s) :
    Accounted maxThreads (getWork s).2 := by
  have count := scan_count accounted.ripe
  have members := (scan_mem s s.pendingTasks).1
  have pendingCount := accounted.pendingCount
  refine { accounted with pendingCount := ?_, ripe := fun task member => accounted.ripe task (members task member) }
  simp only [SequencedWorkerPool.getWork]
  cases found : (scan s s.pendingTasks).status with
  | found task =>
    rw [found] at count
    cases blocks : task.blocks <;> simp_all [GetWorkStatus.task, SequencedTask.blocks]
    omega
  | notFound | wait waitTime =>
    rw [found] at count
    simp only [GetWorkStatus.task, Option.any_none, Bool.toNat_false] at count
    dsimp only
    omega

/-- A worker that has found a task is counted until it ends it. -/
theorem Accounted.willRun {maxThreads : Nat} {s : State Name} (accounted : Accounted maxThreads s)
    {i : Nat} {worker : Worker} (found : s.threads[i]? = some worker)
    (free : worker.position.task = none) (task : SequencedTask) :
    Accounted maxThreads (release (willRunWorkerTask s task) i worker (.found task)) := by
  have count := countP_exchange (p := (·.holdsShutdown)) (y := { worker with position := .found task }) found
  have idle : worker.holdsShutdown = false := by simp [Worker.holdsShutdown, free]
  have busy : Worker.holdsShutdown { worker with position := .found task } =
      decide (task.shutdownBehavior ≠ .continueOnShutdown) := by
    simp [Worker.holdsShutdown, Position.task]
  unfold willRunWorkerTask
  rw [release_prepare]
  refine Accounted.prepare ?_
  have threadCount := accounted.threadCount
  refine { accounted with threadCount := ?_, threadBound := ?_ }
  · simp only [release, State.place]
    rw [idle, busy] at count
    split <;> simp_all
  · simpa only [release, State.place, List.length_set] using accounted.threadBound

/-- A worker that ends its task is no longer counted. -/
theorem Accounted.didRun {maxThreads : Nat} {s : State Name} (accounted : Accounted maxThreads s)
    {i : Nat} {worker : Worker} (found : s.threads[i]? = some worker) {task : SequencedTask}
    (runs : worker.position = .processed task) :
    Accounted maxThreads { (didRunWorkerTask s task).place i worker .top with lock := some i } := by
  have count := countP_exchange (p := (·.holdsShutdown)) (y := { worker with position := .top }) found
  have busy : worker.holdsShutdown = decide (task.shutdownBehavior ≠ .continueOnShutdown) := by
    simp [Worker.holdsShutdown, Position.task, runs]
  have idle : Worker.holdsShutdown { worker with position := .top } = false := rfl
  have threadCount := accounted.threadCount
  refine { accounted with threadCount := ?_, threadBound := ?_ }
  · simp only [State.place, didRunWorkerTask]
    rw [idle, busy] at count
    split <;> simp_all
    omega
  · simpa only [State.place, didRunWorkerTask, List.length_set] using accounted.threadBound

section Workers

variable {maxThreads : Nat} {s : State Name} {i : Nat} {worker : Worker}

section
variable (accounted : Accounted maxThreads s)
include accounted

/-- A worker without a task that moves to where it has none. -/
theorem Accounted.quiet {t : State Name}
    (found : s.threads[i]? = some worker) (quiet : Quiet s t i worker) : Accounted maxThreads t := by
  obtain ⟨free, position, idle, kept⟩ := quiet
  refine accounted.move { worker with position } found ?_ (by rw [kept]) (by rw [kept])
  simp [Worker.holdsShutdown, free, idle]

theorem Accounted.threadLoop {t : State Name}
    (found : s.threads[i]? = some worker) (atWork : worker.position = .work)
    (moved : threadLoop s i worker = some t) : Accounted maxThreads t := by
  rcases threadLoop_cases atWork moved with ⟨task, _, rfl⟩ | ⟨_, quiet⟩
  · exact accounted.getWork.willRun found (by rw [atWork]; rfl) task
  · exact accounted.getWork.quiet found quiet

theorem Accounted.runTask {t : State Name}
    (found : s.threads[i]? = some worker) (moved : runTask s i worker = some t) : Accounted maxThreads t := by
  unfold SequencedWorkerPool.runTask at moved
  split at moved
  next task stands =>
    cases moved
    refine accounted.move _ found ?_ rfl rfl
    simp [Worker.holdsShutdown, Position.task, stands]
  next => cases moved

theorem Accounted.finishTask {t : State Name}
    (found : s.threads[i]? = some worker) (moved : finishTask s i worker = some t) : Accounted maxThreads t := by
  unfold SequencedWorkerPool.finishTask at moved
  split at moved
  next task stands =>
    cases moved
    refine accounted.move _ found ?_ rfl rfl
    simp [Worker.holdsShutdown, Position.task, stands]
  next => cases moved

theorem Accounted.setRunningTaskInfo {t : State Name}
    (found : s.threads[i]? = some worker) (moved : setRunningTaskInfo s i worker = some t) :
    Accounted maxThreads t := by
  unfold SequencedWorkerPool.setRunningTaskInfo at moved
  split at moved
  next task stands =>
    split at moved
    · cases moved
      refine accounted.move _ found ?_ rfl rfl
      rfl
    · cases moved
  next => cases moved

end

end Workers

theorem Accounted.enqueue {maxThreads : Nat} {s : State Name} (accounted : Accounted maxThreads s)
    (call : Call Name) (ripe : call.shutdownBehavior ≠ .skipOnShutdown → call.timeToRun ≤ s.now) (id : Nat) :
    Accounted maxThreads (enqueue s call id) := by
  refine { accounted with pendingCount := ?_, ripe := fun task member => ?_ }
  · simp only [SequencedWorkerPool.enqueue]
    rw [(insertTask_perm _ _).countP_eq, List.countP_cons]
    simp only [SequencedTask.blocks, accounted.pendingCount]
    split <;> simp_all
  · rcases List.mem_cons.mp ((insertTask_perm _ _).mem_iff.mp member) with rfl | earlier
    · exact ripe
    · exact accounted.ripe task earlier

theorem Accounted.tokenOf [DecidableEq Name] {maxThreads : Nat} {s : State Name}
    (accounted : Accounted maxThreads s) (argument : TokenArgument Name) :
    Accounted maxThreads (tokenOf s argument).2 ∧ (tokenOf s argument).2.now = s.now := by
  cases argument with
  | token id => exact ⟨accounted, rfl⟩
  | named name =>
    simp only [SequencedWorkerPool.tokenOf]
    rw [lockedGetNamedTokenId_cases]
    refine ⟨?_, rfl⟩
    cases accounted
    constructor <;> assumption

theorem Accounted.charge {maxThreads : Nat} {s : State Name} (accounted : Accounted maxThreads s)
    {call : Call Name} (admitted : rejects s call = false) (late : s.shutdownCalled = true) :
    Accounted maxThreads { s with
      maxBlockingTasksAfterShutdown := s.maxBlockingTasksAfterShutdown - 1
      acceptedAfterShutdown := s.acceptedAfterShutdown + 1 } := by
  have positive : 0 < s.maxBlockingTasksAfterShutdown := by
    simp only [rejects, late, Bool.true_and, Bool.or_eq_false_iff, decide_eq_false_iff_not] at admitted
    omega
  have quota := accounted.quota
  refine { accounted with quota := ?_, before := by simp [late] }
  push_cast
  omega

theorem Accounted.postTask [DecidableEq Name] {maxThreads : Nat} {s : State Name}
    (accounted : Accounted maxThreads s) {call : Call Name}
    (ripe : call.shutdownBehavior ≠ .skipOnShutdown → call.timeToRun ≤ s.now) :
    Accounted maxThreads (postTask s call) := by
  unfold SequencedWorkerPool.postTask
  split
  next => exact accounted
  next admitted =>
    have admitted := Bool.eq_false_iff.mpr admitted
    dsimp only
    refine Accounted.prepare (Accounted.enqueue ?_ call ?_ _)
    · split
      next late => exact ((accounted.charge admitted late).tokenOf call.argument).1
      next => exact (accounted.tokenOf call.argument).1
    · split
      next late => rwa [((accounted.charge admitted late).tokenOf call.argument).2]
      next => rwa [(accounted.tokenOf call.argument).2]

theorem step_accounted [DecidableEq Name] {maxThreads : Nat} {s t : State Name} {action : Action Name}
    (accounted : Accounted maxThreads s) (skippable : DelaysAreSkippable s action)
    (moved : step s action = some t) : Accounted maxThreads t := by
  cases action with
  | tick now =>
    obtain ⟨passes, rfl⟩ := Library.of_guarded moved
    refine { accounted with ripe := ?_, callsRipe := ?_, clock := Int.le_trans accounted.clock passes }
    · exact fun task member waits => Int.le_trans (accounted.ripe task member waits) passes
    · exact fun call member waits => Int.le_trans (accounted.callsRipe call member waits) passes
  | getSequenceToken =>
    cases moved
    cases accounted
    constructor <;> assumption
  | getNamedSequenceToken name =>
    obtain ⟨_, rfl⟩ := Library.of_guarded moved
    exact (accounted.tokenOf (.named name)).1
  | beginPostTask caller argument shutdownBehavior delay =>
    obtain ⟨_, rfl⟩ := Library.of_guarded moved
    refine { accounted with callsRipe := fun call member waits => ?_ }
    rcases List.mem_append.mp member with earlier | new
    · exact accounted.callsRipe call earlier waits
    · rw [List.mem_singleton.mp new] at waits ⊢
      have clock := accounted.clock
      have immediate : delay = 0 := skippable.resolve_right waits
      simp only [immediate, saturatedAdd, int64Max]
      split_ifs <;> omega
  | postTask k =>
    simp only [step] at moved
    split at moved
    next call found =>
      simp only [Option.ite_none_right_eq_some, Option.some.injEq] at moved
      obtain ⟨_, rfl⟩ := moved
      have ripe := accounted.callsRipe call (List.mem_of_getElem? found)
      refine Accounted.postTask ?_ ripe
      exact { accounted with
        callsRipe := fun call member => accounted.callsRipe call (List.mem_of_mem_eraseIdx member) }
    next => cases moved
  | enterThreadLoop =>
    obtain ⟨⟨_, created⟩, rfl⟩ := Library.of_guarded moved
    refine { accounted with threadCount := ?_, threadBound := ?_ }
    · simpa [List.countP_append, Worker.holdsShutdown, Position.task] using accounted.threadCount
    · simpa [created] using accounted.threadBound
  | handleCleanup i =>
    obtain ⟨_, worker, found, moved⟩ := Library.of_guarded_bind moved
    exact accounted.quiet found (handleCleanup_quiet moved)
  | threadLoop i =>
    obtain ⟨⟨_, stands⟩, worker, found, moved⟩ := Library.of_guarded_bind moved
    refine accounted.threadLoop found ?_ moved
    simpa [found] using stands
  | wake i =>
    obtain ⟨_, worker, found, moved⟩ := Library.of_guarded_bind moved
    exact accounted.quiet found (wake_quiet found moved)
  | runTask i =>
    obtain ⟨_, worker, found, moved⟩ := Library.of_guarded_bind moved
    exact accounted.runTask found moved
  | setRunningTaskInfo i =>
    obtain ⟨_, worker, found, moved⟩ := Library.of_guarded_bind moved
    exact accounted.setRunningTaskInfo found moved
  | finishTask i =>
    obtain ⟨_, worker, found, moved⟩ := Library.of_guarded_bind moved
    exact accounted.finishTask found moved
  | didRunWorkerTask i =>
    obtain ⟨_, worker, found, moved⟩ := Library.of_guarded_bind moved
    split at moved
    next task stands =>
      cases moved
      exact accounted.didRun found stands
    next => cases moved
  | shutdown maxNew =>
    obtain ⟨_, rfl⟩ := Library.of_guarded moved
    split
    next => exact accounted
    next first =>
      have none_ := accounted.before (by simpa using first)
      refine { accounted with quota := ?_, before := ?_ }
      · simp [beginShutdown, none_]
      · rintro ⟨⟩
  | checkCanShutdown =>
    obtain ⟨_, rfl⟩ := Library.of_guarded moved
    cases accounted
    constructor <;> assumption
  | cleanupForTesting =>
    obtain ⟨_, rfl⟩ := Library.of_guarded moved
    split
    · exact accounted
    · cases accounted
      constructor <;> assumption

theorem accounted_initial (maxThreads : Nat) : Accounted maxThreads (initial maxThreads : State Name) :=
  ⟨rfl, rfl, rfl, Nat.zero_le _, nofun, nofun, Int.le_refl _, fun _ => rfl, Int.le_refl _⟩

/-- The number of pending tasks that block the shutdown. -/
def pendingBlocking (s : State Name) : Nat :=
  s.pendingTasks.countP (·.blocks)

/-- The number of workers that run a task which is not `CONTINUE_ON_SHUTDOWN`. -/
def runningBlocking (s : State Name) : Nat :=
  s.threads.countP (·.holdsShutdown)

section Calls

variable {s t : State Name} {i : Nat} {worker : Worker}

theorem prepare_shutdownCall (s : State Name) :
    (prepareToStartAdditionalThreadIfHelpful s).shutdownCall = s.shutdownCall := by
  rcases prepare_cases s with same | ⟨started, _⟩
  · rw [same]
  · rw [started]

theorem tokenOf_shutdownCall [DecidableEq Name] (s : State Name) (argument : TokenArgument Name) :
    (tokenOf s argument).2.shutdownCall = s.shutdownCall := by
  cases argument with
  | token id => rfl
  | named name =>
    simp only [tokenOf]
    rw [lockedGetNamedTokenId_cases]

theorem postTask_shutdownCall [DecidableEq Name] (s : State Name) (call : Call Name) :
    (postTask s call).shutdownCall = s.shutdownCall := by
  unfold postTask
  split
  · rfl
  · dsimp only
    rw [prepare_shutdownCall]
    simp only [enqueue, tokenOf_shutdownCall]
    split <;> rfl

theorem Quiet.shutdownCall (quiet : Quiet s t i worker) : t.shutdownCall = s.shutdownCall := by
  obtain ⟨_, _, _, kept⟩ := quiet
  rw [kept]

theorem threadLoop_shutdownCall (atWork : worker.position = .work) (moved : threadLoop s i worker = some t) :
    t.shutdownCall = s.shutdownCall := by
  rcases threadLoop_cases atWork moved with ⟨task, _, rfl⟩ | ⟨_, quiet⟩
  · simp only [willRunWorkerTask, release_prepare, prepare_shutdownCall]
    rfl
  · exact quiet.shutdownCall

theorem taskStep_shutdownCall (moved : runTask s i worker = some t ∨ finishTask s i worker = some t ∨
    setRunningTaskInfo s i worker = some t) : t.shutdownCall = s.shutdownCall := by
  rcases moved with moved | moved | moved
  · unfold runTask at moved
    split at moved <;> cases moved
    rfl
  · unfold finishTask at moved
    split at moved <;> cases moved
    rfl
  · unfold setRunningTaskInfo at moved
    split at moved
    · split at moved <;> cases moved
      rfl
    · cases moved

theorem passed_of_step [DecidableEq Name] {action : Action Name} (moved : step s action = some t)
    (waits : s.shutdownCall ≠ .passed) (passed : t.shutdownCall = .passed) : canShutdown t = true := by
  have moves : t.shutdownCall ≠ s.shutdownCall := fun same => waits (same ▸ passed)
  cases action with
  | shutdown maxNew =>
    obtain ⟨_, rfl⟩ := Library.of_guarded moved
    split at passed
    · exact (waits passed).elim
    next first =>
      rw [if_neg first]
      simp only [beginShutdown] at passed
      split at passed
      next can => exact can
      next => cases passed
  | checkCanShutdown =>
    obtain ⟨⟨_, _, can⟩, rfl⟩ := Library.of_guarded moved
    exact can
  | tick | beginPostTask | enterThreadLoop =>
    obtain ⟨_, rfl⟩ := Library.of_guarded moved
    exact (moves rfl).elim
  | getSequenceToken =>
    cases moved
    exact (moves rfl).elim
  | getNamedSequenceToken name =>
    obtain ⟨_, rfl⟩ := Library.of_guarded moved
    exact (moves (tokenOf_shutdownCall s (.named name))).elim
  | postTask k =>
    simp only [step] at moved
    split at moved
    · simp only [Option.ite_none_right_eq_some, Option.some.injEq] at moved
      obtain ⟨_, rfl⟩ := moved
      exact (moves (postTask_shutdownCall _ _)).elim
    · cases moved
  | handleCleanup i =>
    obtain ⟨_, worker, _, moved⟩ := Library.of_guarded_bind moved
    exact (moves (handleCleanup_quiet moved).shutdownCall).elim
  | threadLoop i =>
    obtain ⟨⟨_, stands⟩, worker, found, moved⟩ := Library.of_guarded_bind moved
    exact (moves (threadLoop_shutdownCall (by simpa [found] using stands) moved)).elim
  | wake i =>
    obtain ⟨_, worker, found, moved⟩ := Library.of_guarded_bind moved
    exact (moves (wake_quiet found moved).shutdownCall).elim
  | runTask i =>
    obtain ⟨_, worker, _, moved⟩ := Library.of_guarded_bind moved
    exact (moves (taskStep_shutdownCall (.inl moved))).elim
  | finishTask i =>
    obtain ⟨_, worker, _, moved⟩ := Library.of_guarded_bind moved
    exact (moves (taskStep_shutdownCall (.inr (.inl moved)))).elim
  | setRunningTaskInfo i =>
    obtain ⟨_, worker, _, moved⟩ := Library.of_guarded_bind moved
    exact (moves (taskStep_shutdownCall (.inr (.inr moved)))).elim
  | didRunWorkerTask i =>
    obtain ⟨_, worker, _, moved⟩ := Library.of_guarded_bind moved
    split at moved <;> cases moved
    exact (moves rfl).elim
  | cleanupForTesting =>
    obtain ⟨_, rfl⟩ := Library.of_guarded moved
    split at moves <;> exact (moves rfl).elim

end Calls

instance (s : State Name) (action : Action Name) : Decidable (DelaysAreSkippable s action) :=
  match action with
  | .beginPostTask .. => inferInstanceAs (Decidable (_ ∨ _))
  | .tick _ | .getSequenceToken | .getNamedSequenceToken _ | .postTask _ | .enterThreadLoop
  | .handleCleanup _ | .threadLoop _ | .wake _ | .runTask _ | .setRunningTaskInfo _ | .finishTask _
  | .didRunWorkerTask _ | .shutdown _ | .checkCanShutdown | .cleanupForTesting => .isTrue trivial

/-- A blocking task runs while `Shutdown` is called, and a second one is posted from it. -/
def blockedShutdown : List (Action Nat) :=
  [.beginPostTask none (.named 0) .blockShutdown 0, .postTask 0, .enterThreadLoop, .handleCleanup 0,
    .threadLoop 0, .runTask 0, .shutdown 1, .beginPostTask (some 0) (.token 1) .blockShutdown 0,
    .postTask 0, .finishTask 0, .didRunWorkerTask 0, .handleCleanup 0, .threadLoop 0, .runTask 0,
    .finishTask 0, .didRunWorkerTask 0, .handleCleanup 0, .threadLoop 0]

end Libchrome.Base.SequencedWorkerPool
