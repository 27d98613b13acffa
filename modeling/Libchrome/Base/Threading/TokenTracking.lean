import Libchrome.Base.Threading.SequenceTokens

/-!
# Tokens between the end of a task and its release

After `Run` the worker captures the token of its task, then destroys the closure, then resets its info.
A destructor that asks for the current sequenced task runner gives the running task a token which the
worker has not captured, and which nobody releases.
-/

namespace Libchrome.Base.SequencedWorkerPool

open Library

variable {Name : Type}

/-- The pool with the tokens that workers have captured of tasks whose closures they destroy. -/
structure Tracked (Name : Type) where
  pool : State Name
  captured : Nat → Option Nat := fun _ => none

/-- `task.sequence_token_id = this_worker->task_sequence_token().id_`, after `Run`. -/
def captureToken (s : Tracked Name) (i : Nat) (worker : Worker) : Option (Tracked Name) :=
  match worker.position, s.captured i with
  | .processing _, none =>
    some { s with captured := Function.update s.captured i (some worker.taskSequenceToken) }
  | _, _ => none

/-- The end of `task.task = Closure()`, and `reset_running_task_info`. -/
def resetRunningTaskInfo (s : Tracked Name) (i : Nat) (worker : Worker) : Option (Tracked Name) :=
  match worker.position, s.captured i with
  | .processing task, some token => some {
      pool := { s.pool with
        threads := s.pool.threads.set i { worker with
          position := .processed { task with sequenceTokenId := token }
          isProcessingTask := false } }
      captured := Function.update s.captured i none }
  | _, _ => none

inductive TrackedAction (Name : Type) where
  | pool (action : Action Name)
  | captureToken (i : Nat)
  | resetRunningTaskInfo (i : Nat)

/-- One step of some thread. The end of a task takes two, between which the worker destroys the closure
and may call `PostTask` and `GetSequencedTaskRunnerForCurrentThread`. -/
def trackedStep [DecidableEq Name] (s : Tracked Name) : TrackedAction Name → Option (Tracked Name)
  | .pool (.finishTask _) => none
  | .pool action => (step s.pool action).map fun pool => { s with pool }
  | .captureToken i =>
    if !posting s.pool i then (s.pool.threads[i]?).bind (captureToken s i) else none
  | .resetRunningTaskInfo i =>
    if !posting s.pool i then (s.pool.threads[i]?).bind (resetRunningTaskInfo s i) else none

def trackedInitial (maxThreads : Nat) : Tracked Name := { pool := initial maxThreads }

/-- `current_sequences_` has the tokens of the tasks that threads are processing and no others, so a
token is runnable as soon as no thread runs a task of it. -/
def Exact (s : Tracked Name) : Prop :=
  (∀ id, id ∈ s.pool.currentSequences ↔ ∃ i, holding s.pool.threads i = some id) ∧
    ∀ id, (∀ i, holding s.pool.threads i ≠ some id) → isSequenceTokenRunnable s.pool id = true

/-- A worker that resets its info has the token it has captured: its task got none while its closure
was being destroyed. -/
def CapturedLast (s : Tracked Name) : TrackedAction Name → Prop
  | .resetRunningTaskInfo i => ∀ worker token, s.pool.threads[i]? = some worker → s.captured i = some token →
      worker.taskSequenceToken = token
  | _ => True

/-- What a worker has captured is the token of its task, or that it had none. -/
def Captures (s : Tracked Name) : Prop :=
  ∀ i token, s.captured i = some token → ∃ worker task, s.pool.threads[i]? = some worker ∧
    worker.position = .processing task ∧ (token = worker.taskSequenceToken ∨ token = 0)

/-- The tokens are exact, and so are those captured. -/
structure Tracking (s : Tracked Name) : Prop where
  tokens : Tokens s.pool
  captures : Captures s

@[simp] theorem prepare_threads (s : State Name) :
    (prepareToStartAdditionalThreadIfHelpful s).threads = s.threads := by
  unfold prepareToStartAdditionalThreadIfHelpful
  split <;> rfl

@[simp] theorem tokenOf_threads [DecidableEq Name] (s : State Name) (argument : TokenArgument Name) :
    (tokenOf s argument).2.threads = s.threads := by
  cases argument with
  | token id => rfl
  | named name =>
    unfold tokenOf
    rw [lockedGetNamedTokenId_cases]

@[simp] theorem postTask_threads [DecidableEq Name] (s : State Name) (call : Call Name) :
    (postTask s call).threads = s.threads := by
  unfold postTask
  split
  · rfl
  · simp only [prepare_threads, enqueue, tokenOf_threads]
    split <;> rfl

section Processing

variable {s t : State Name} {i : Nat} {worker : Worker} {task : SequencedTask}

/-- Another worker moves. -/
theorem processing_of_set {j : Nat} {other next : Worker} (found : s.threads[i]? = some worker)
    (runs : worker.position = .processing task) (isOther : s.threads[j]? = some other)
    (free : ∀ task, other.position ≠ .processing task) : (s.threads.set j next)[i]? = some worker := by
  have different : j ≠ i := by
    rintro rfl
    have same : other = worker := Option.some.inj (isOther.symm.trans found)
    exact free task (same ▸ runs)
  rw [List.getElem?_set_ne different, found]

theorem processing_of_quiet {j : Nat} {other : Worker} (found : s.threads[i]? = some worker)
    (runs : worker.position = .processing task) (isOther : s.threads[j]? = some other)
    (quiet : Quiet s t j other) : t.threads[i]? = some worker := by
  obtain ⟨free, position, _, kept⟩ := quiet
  rw [kept]
  exact processing_of_set found runs isOther fun task stands => by simp [stands, Position.task] at free

/-- The token of a running task changes only if it has none and asks for one. -/
theorem step_processing [DecidableEq Name] {action : Action Name} (runsOn : ∀ j, action ≠ .finishTask j)
    (found : s.threads[i]? = some worker) (runs : worker.position = .processing task)
    (moved : step s action = some t) : ∃ next, t.threads[i]? = some next ∧ next.position = .processing task ∧
      (next.taskSequenceToken = worker.taskSequenceToken ∨
        worker.taskSequenceToken = 0 ∧ action = .setRunningTaskInfo i) := by
  have still : t.threads[i]? = some worker → ∃ next, t.threads[i]? = some next ∧
      next.position = .processing task ∧ (next.taskSequenceToken = worker.taskSequenceToken ∨
        worker.taskSequenceToken = 0 ∧ action = .setRunningTaskInfo i) :=
    fun found' => ⟨worker, found', runs, .inl rfl⟩
  cases action with
  | tick | beginPostTask | shutdown | checkCanShutdown | cleanupForTesting =>
    obtain ⟨_, rfl⟩ := Library.of_guarded moved
    apply still
    try split
    all_goals exact found
  | getSequenceToken =>
    cases moved
    exact still found
  | getNamedSequenceToken name =>
    obtain ⟨_, rfl⟩ := Library.of_guarded moved
    apply still
    rw [lockedGetNamedTokenId_cases]
    exact found
  | postTask k =>
    simp only [step] at moved
    split at moved
    next call _ =>
      simp only [Option.ite_none_right_eq_some, Option.some.injEq] at moved
      obtain ⟨_, rfl⟩ := moved
      apply still
      rw [postTask_threads]
      exact found
    next => cases moved
  | enterThreadLoop =>
    obtain ⟨_, rfl⟩ := Library.of_guarded moved
    apply still
    rw [List.getElem?_append_left (List.getElem?_eq_some_iff.mp found).1]
    exact found
  | handleCleanup j =>
    obtain ⟨_, other, isOther, moved⟩ := Library.of_guarded_bind moved
    exact still (processing_of_quiet found runs isOther (handleCleanup_quiet moved))
  | threadLoop j =>
    obtain ⟨⟨_, stands⟩, other, isOther, moved⟩ := Library.of_guarded_bind moved
    have atWork : other.position = .work := by simpa [isOther] using stands
    rcases threadLoop_cases atWork moved with ⟨taken, _, rfl⟩ | ⟨_, quiet⟩
    · apply still
      simp only [release, State.place, willRunWorkerTask, prepare_threads, getWork]
      exact processing_of_set found runs isOther (by simp [atWork])
    · exact still (processing_of_quiet (s := (getWork s).2) found runs isOther quiet)
  | wake j =>
    obtain ⟨_, other, isOther, moved⟩ := Library.of_guarded_bind moved
    exact still (processing_of_quiet found runs isOther (wake_quiet isOther moved))
  | runTask j =>
    obtain ⟨_, other, isOther, moved⟩ := Library.of_guarded_bind moved
    unfold runTask at moved
    split at moved
    next taken stands =>
      cases moved
      exact still (processing_of_set found runs isOther (by simp [stands]))
    next => cases moved
  | setRunningTaskInfo j =>
    obtain ⟨_, other, isOther, moved⟩ := Library.of_guarded_bind moved
    unfold setRunningTaskInfo at moved
    split at moved
    next taken stands =>
      split at moved
      next none_ =>
        cases moved
        by_cases here : j = i
        · subst here
          have same : other = worker := Option.some.inj (isOther.symm.trans found)
          subst same
          refine ⟨{ other with taskSequenceToken := (getSequenceToken s).1 }, ?_, runs, .inr ⟨none_, rfl⟩⟩
          exact List.getElem?_set_self (List.getElem?_eq_some_iff.mp found).1
        · apply still
          exact (List.getElem?_set_ne here).trans found
      next => cases moved
    next => cases moved
  | finishTask j => exact (runsOn j rfl).elim
  | didRunWorkerTask j =>
    obtain ⟨_, other, isOther, moved⟩ := Library.of_guarded_bind moved
    split at moved
    next taken stands =>
      cases moved
      exact still (processing_of_set found runs isOther (by simp [stands]))
    next => cases moved

end Processing

section Tracked

variable {s t : Tracked Name}

theorem Tracking.exact (tracking : Tracking s) : Exact s := by
  have leased := tracking.tokens.leased
  refine ⟨leased.exact, fun id unheld => ?_⟩
  have free : id ∉ s.pool.currentSequences := by
    intro member
    obtain ⟨i, holds⟩ := (leased.exact id).mp member
    exact unheld i holds
  simp [isSequenceTokenRunnable, free]

/-- A step that leaves the running tasks and what is captured keeps what the captures say. -/
theorem Captures.frame (captures : Captures s) (captured : t.captured = s.captured)
    (kept : ∀ (i : Nat) (worker : Worker) (task : SequencedTask), s.pool.threads[i]? = some worker →
      worker.position = .processing task → ∃ next : Worker, t.pool.threads[i]? = some next ∧
        next.position = .processing task ∧
        (next.taskSequenceToken = worker.taskSequenceToken ∨ worker.taskSequenceToken = 0)) : Captures t := by
  intro i token holds
  obtain ⟨worker, task, found, runs, known⟩ := captures i token (captured ▸ holds)
  obtain ⟨next, found', runs', same⟩ := kept i worker task found runs
  refine ⟨next, task, found', runs', ?_⟩
  rcases known with known | none_
  · rcases same with same | invalid
    · exact .inl (by rw [same, known])
    · exact .inr (by rw [known, invalid])
  · exact .inr none_

theorem Tracking.pool [DecidableEq Name] {action : Action Name} {pool : State Name} (tracking : Tracking s)
    (runsOn : ∀ j, action ≠ .finishTask j) (moved : step s.pool action = some pool) :
    Tracking { s with pool } :=
  ⟨step_tokens tracking.tokens moved, Captures.frame tracking.captures rfl fun _ _ _ found runs =>
    (step_processing runsOn found runs moved).imp fun _ ⟨found, runs, same⟩ =>
      ⟨found, runs, same.imp_right And.left⟩⟩

theorem Tracking.capture {i : Nat} {worker : Worker} (tracking : Tracking s)
    (found : s.pool.threads[i]? = some worker) (moved : captureToken s i worker = some t) : Tracking t := by
  unfold captureToken at moved
  split at moved
  next task runs _ =>
    cases moved
    refine ⟨tracking.tokens, fun j token holds => ?_⟩
    dsimp only at holds
    by_cases here : j = i
    · rw [here, Function.update_self] at holds
      exact ⟨worker, task, here ▸ found, runs, .inl (Option.some.inj holds).symm⟩
    · rw [Function.update_of_ne here] at holds
      exact tracking.captures j token holds
  next => cases moved

/-- The info is reset as at the end of a task that has the captured token. -/
theorem resetRunningTaskInfo_cases {i : Nat} {worker : Worker} (moved : resetRunningTaskInfo s i worker = some t) :
    ∃ task token, worker.position = .processing task ∧ s.captured i = some token ∧
      t = {
        pool := { s.pool with
          threads := s.pool.threads.set i { worker with
            position := .processed { task with sequenceTokenId := token }
            isProcessingTask := false } }
        captured := Function.update s.captured i none } := by
  unfold resetRunningTaskInfo at moved
  split at moved
  next task token runs captured =>
    cases moved
    exact ⟨task, token, runs, captured, rfl⟩
  next => cases moved

theorem Tracking.reset {i : Nat} {worker : Worker} (tracking : Tracking s)
    (found : s.pool.threads[i]? = some worker) (last : CapturedLast s (.resetRunningTaskInfo i))
    (moved : resetRunningTaskInfo s i worker = some t) : Tracking t := by
  obtain ⟨task, token, runs, captured, rfl⟩ := resetRunningTaskInfo_cases moved
  refine ⟨tracking.tokens.finishTask found ?_, fun j other holds => ?_⟩
  · unfold finishTask
    rw [runs, ← last worker token found captured]
  · dsimp only at holds
    by_cases here : j = i
    · rw [here, Function.update_self] at holds
      cases holds
    · rw [Function.update_of_ne here] at holds
      obtain ⟨worker', task', found', rest⟩ := tracking.captures j other holds
      exact ⟨worker', task', (List.getElem?_set_ne (Ne.symm here)).trans found', rest⟩

theorem Tracking.leak {i : Nat} {worker : Worker} {token : Nat} (tracking : Tracking s)
    (found : s.pool.threads[i]? = some worker) (captured : s.captured i = some token)
    (new : worker.taskSequenceToken ≠ token) (moved : resetRunningTaskInfo s i worker = some t) : ¬Exact t := by
  obtain ⟨task, captured', runs, same, rfl⟩ := resetRunningTaskInfo_cases moved
  have none_ : token = 0 := by
    obtain ⟨worker', task', found', _, known⟩ := tracking.captures i token captured
    have isWorker : worker' = worker := Option.some.inj (found'.symm.trans found)
    rw [isWorker] at known
    exact known.resolve_left (Ne.symm new)
  have valid : worker.taskSequenceToken ≠ 0 := none_ ▸ new
  have isToken : captured' = 0 := by
    rw [captured] at same
    rw [← none_]
    exact (Option.some.inj same).symm
  have held : holding s.pool.threads i = some worker.taskSequenceToken := by
    rw [holding_eq found, Worker.token, runs]
    exact sequenceToken_eq_some valid
  intro exact_
  obtain ⟨j, holds⟩ := (exact_.1 worker.taskSequenceToken).mp ((tracking.tokens.leased.exact _).mpr ⟨i, held⟩)
  dsimp only at holds
  rw [holding_set found] at holds
  by_cases here : j = i
  · rw [here, Function.update_self] at holds
    simp [Worker.token, isToken, sequenceToken] at holds
  · rw [Function.update_of_ne here] at holds
    exact here (tracking.tokens.leased.exclusive j i _ holds held)

theorem trackedStep_reset [DecidableEq Name] {i : Nat} (moved : trackedStep s (.resetRunningTaskInfo i) = some t) :
    ∃ worker, s.pool.threads[i]? = some worker ∧ resetRunningTaskInfo s i worker = some t := by
  simp only [trackedStep, Option.ite_none_right_eq_some] at moved
  exact Option.bind_eq_some_iff.mp moved.2

/-- A section of the pool leaves what is captured. -/
theorem trackedStep_pool [DecidableEq Name] {action : Action Name} (moved : trackedStep s (.pool action) = some t) :
    (∀ j, action ≠ .finishTask j) ∧ ∃ pool, step s.pool action = some pool ∧ t = { s with pool } := by
  unfold trackedStep at moved
  split at moved
  next => cases moved
  next runsOn same =>
    cases same
    obtain ⟨pool, went, rfl⟩ := Option.map_eq_some_iff.mp moved
    exact ⟨fun j same => runsOn j same, pool, went, rfl⟩
  next same => cases same
  next same => cases same

theorem trackedStep_kept [DecidableEq Name] {action : TrackedAction Name} (tracking : Tracking s)
    (last : CapturedLast s action) (moved : trackedStep s action = some t) : Tracking t := by
  cases action with
  | pool action =>
    obtain ⟨runsOn, pool, went, rfl⟩ := trackedStep_pool moved
    exact tracking.pool runsOn went
  | captureToken i =>
    simp only [trackedStep, Option.ite_none_right_eq_some] at moved
    obtain ⟨worker, found, moved⟩ := Option.bind_eq_some_iff.mp moved.2
    exact tracking.capture found moved
  | resetRunningTaskInfo i =>
    obtain ⟨worker, found, moved⟩ := trackedStep_reset moved
    exact tracking.reset found last moved

theorem trackedStep_broken [DecidableEq Name] {action : TrackedAction Name} (tracking : Tracking s)
    (unmet : ¬CapturedLast s action) (moved : trackedStep s action = some t) : ¬Exact t := by
  cases action with
  | pool action => exact (unmet trivial).elim
  | captureToken i => exact (unmet trivial).elim
  | resetRunningTaskInfo i =>
    obtain ⟨worker, found, moved⟩ := trackedStep_reset moved
    obtain ⟨task, token, runs, captured, _⟩ := resetRunningTaskInfo_cases moved
    refine tracking.leak found captured (fun same => unmet fun other token' found' captured' => ?_) moved
    have isWorker : other = worker := Option.some.inj (found'.symm.trans found)
    have isToken : token' = token := Option.some.inj (captured'.symm.trans captured)
    rw [isWorker, isToken, same]

end Tracked

theorem tracking_initial (maxThreads : Nat) : Tracking (trackedInitial maxThreads : Tracked Name) :=
  ⟨tokens_initial maxThreads, fun _ _ holds => by simp [trackedInitial] at holds⟩

/-- The tokens are exact in all states of a run exactly when no task of the run gets a token while its
closure is being destroyed. -/
theorem exact_iff_capturedLast [DecidableEq Name] (maxThreads : Nat) (actions : List (TrackedAction Name))
    (s : Tracked Name) (ran : runFrom trackedStep (fun _ _ => True) (trackedInitial maxThreads) actions = some s) :
    Always trackedStep Exact (trackedInitial maxThreads) actions ↔
      Meets trackedStep CapturedLast (trackedInitial maxThreads) actions :=
  always_iff_meets (fun _ tracking => Tracking.exact tracking)
    (fun _ _ _ tracking last moved => trackedStep_kept tracking last moved)
    (fun _ _ _ tracking unmet moved => trackedStep_broken tracking unmet moved) (tracking_initial maxThreads) ran

/-- A task without a token runs up to the capture of its token. -/
def unsequencedRun : List (TrackedAction Nat) :=
  [.pool (.beginPostTask none (.token 0) .skipOnShutdown 0), .pool (.postTask 0), .pool .enterThreadLoop,
    .pool (.handleCleanup 0), .pool (.threadLoop 0), .pool (.runTask 0)]

/-- The task asks for the current sequenced task runner while it runs. -/
def lazyRun : List (TrackedAction Nat) :=
  unsequencedRun ++ [.pool (.setRunningTaskInfo 0), .captureToken 0, .resetRunningTaskInfo 0,
    .pool (.didRunWorkerTask 0)]

/-- An argument bound to the task asks for it in its destructor. -/
def leakingRun : List (TrackedAction Nat) :=
  unsequencedRun ++ [.captureToken 0, .pool (.setRunningTaskInfo 0), .resetRunningTaskInfo 0,
    .pool (.didRunWorkerTask 0)]

theorem exact_iff_capturedLast_lazy : Always trackedStep Exact (trackedInitial 1) lazyRun ↔
    Meets trackedStep CapturedLast (trackedInitial 1) lazyRun := by
  obtain ⟨s, ran⟩ := Option.isSome_iff_exists.mp (show
    (runFrom trackedStep (fun _ _ => True) (trackedInitial 1) lazyRun).isSome = true by decide +kernel)
  exact exact_iff_capturedLast 1 lazyRun s ran

/-- The token stays blocked though no thread runs a task. -/
theorem leaked_token_stays : ¬∀ s : Tracked Nat, Reaches trackedStep (fun _ _ => True) (trackedInitial 1) s →
    Exact s := by
  obtain ⟨s, ran, facts⟩ := (Option.any_eq_true _ _).mp (show
    (runFrom trackedStep (fun _ _ => True) (trackedInitial 1) leakingRun).any (fun s =>
      decide (1 ∈ s.pool.currentSequences) && s.pool.threads.all (·.token.isNone)) = true by decide +kernel)
  simp only [Bool.and_eq_true, decide_eq_true_eq, List.all_eq_true] at facts
  intro exact_
  obtain ⟨i, holds⟩ := ((exact_ s (Reaches.run .start ran)).1 1).mp facts.1
  unfold holding at holds
  obtain ⟨worker, found, token⟩ := Option.bind_eq_some_iff.mp holds
  have none_ := facts.2 worker (List.mem_of_getElem? found)
  rw [token] at none_
  cases none_

end Libchrome.Base.SequencedWorkerPool
