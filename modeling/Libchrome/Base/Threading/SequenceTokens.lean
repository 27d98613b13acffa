import Libchrome.Library.Leases
import Libchrome.Library.Positions
import Libchrome.Base.Threading.PoolSections

/-!
# One worker for each sequence token

`current_sequences_` has the tokens of the tasks that workers have taken. A task whose token is there is
skipped by `GetWork`, and a task that gets a token while it runs gets a new one, so no two workers run
tasks of one token.
-/

namespace Libchrome.Base.SequencedWorkerPool

open Library

variable {Name : Type}

/-- A token id as a token: zero is none. -/
def sequenceToken (id : Nat) : Option Nat :=
  if id = 0 then none else some id

/-- The token of the task that a worker has taken and not yet ended. -/
def Worker.token (worker : Worker) : Option Nat :=
  match worker.position with
  | .found task | .processed task => sequenceToken task.sequenceTokenId
  | .processing _ => sequenceToken worker.taskSequenceToken
  | _ => none

def holding (threads : List Worker) (i : Nat) : Option Nat :=
  threads[i]?.bind Worker.token

variable {worker : Worker}

theorem Worker.token_of_free (free : worker.position.task = none) : worker.token = none := by
  unfold token
  split <;> simp_all [Position.task]

variable {threads : List Worker} {i : Nat}

theorem holding_set {next : Worker} (found : threads[i]? = some worker) :
    holding (threads.set i next) = Function.update (holding threads) i next.token := by
  obtain ⟨inside, _⟩ := List.getElem?_eq_some_iff.mp found
  funext j
  unfold holding
  by_cases same : j = i
  · rw [same, Function.update_self, List.getElem?_set_self inside]
    rfl
  · rw [Function.update_of_ne same, List.getElem?_set_ne (Ne.symm same)]

theorem holding_eq (found : threads[i]? = some worker) : holding threads i = worker.token := by
  unfold holding
  rw [found]
  rfl

theorem holding_set_same {next : Worker} (found : threads[i]? = some worker) (same : next.token = worker.token) :
    holding (threads.set i next) = holding threads := by
  rw [holding_set found, same, ← holding_eq found, Function.update_eq_self]

/-- A running task that was posted with a token runs with it. -/
def RunWithOwnToken (threads : List Worker) : Prop :=
  ∀ (i : Nat) (worker : Worker) (task : SequencedTask), threads[i]? = some worker →
    worker.position = .processing task → task.sequenceTokenId ≠ 0 →
    worker.taskSequenceToken = task.sequenceTokenId

theorem RunWithOwnToken.set (own : RunWithOwnToken threads)
    (next : Worker) (new : ∀ task, next.position = .processing task → task.sequenceTokenId ≠ 0 →
      next.taskSequenceToken = task.sequenceTokenId) : RunWithOwnToken (threads.set i next) := by
  intro j other task at_
  rcases getElem?_set_eq_some at_ with ⟨_, rfl⟩ | ⟨_, at_⟩
  · exact new task
  · exact own j other task at_

structure Tokens (s : State Name) : Prop where
  leased : Leased (holding s.threads) s.currentSequences
  held : ∀ i id, holding s.threads i = some id → id ≤ s.lastSequenceNumber
  pending : ∀ task ∈ s.pendingTasks, task.sequenceTokenId ≤ s.lastSequenceNumber
  calls : ∀ call ∈ s.calls, issued s call.argument = true
  named : ∀ entry ∈ s.namedSequenceTokens, entry.2 ≤ s.lastSequenceNumber
  own : RunWithOwnToken s.threads

variable {s t : State Name}

theorem issued_mono (grown : s.lastSequenceNumber ≤ t.lastSequenceNumber) {argument : TokenArgument Name}
    (known : issued s argument = true) : issued t argument = true := by
  cases argument with
  | token id =>
    simp only [issued, decide_eq_true_eq] at known ⊢
    omega
  | named name => rfl

/-- The invariant depends on these members only; more tokens may have been issued. -/
theorem Tokens.frame (tokens : Tokens s) (threads : t.threads = s.threads)
    (current : t.currentSequences = s.currentSequences) (pending : ∀ task ∈ t.pendingTasks, task ∈ s.pendingTasks)
    (calls : ∀ call ∈ t.calls, call ∈ s.calls)
    (named : ∀ entry ∈ t.namedSequenceTokens, entry ∈ s.namedSequenceTokens)
    (grown : s.lastSequenceNumber ≤ t.lastSequenceNumber) : Tokens t where
  leased := by
    rw [threads, current]
    exact tokens.leased
  held i id holds := by
    rw [threads] at holds
    exact Nat.le_trans (tokens.held i id holds) grown
  pending task member := Nat.le_trans (tokens.pending task (pending task member)) grown
  calls call member := issued_mono grown (tokens.calls call (calls call member))
  named entry member := Nat.le_trans (tokens.named entry (named entry member)) grown
  own := by
    rw [threads]
    exact tokens.own

/-- A worker that keeps its token, and whose new task info belongs to its task. -/
theorem Tokens.move (tokens : Tokens s) (next : Worker) (found : s.threads[i]? = some worker)
    (same : next.token = worker.token)
    (own : ∀ task, next.position = .processing task → task.sequenceTokenId ≠ 0 →
      next.taskSequenceToken = task.sequenceTokenId) : Tokens { s with threads := s.threads.set i next } := by
  obtain ⟨leased, held, pending, calls, named, own'⟩ := tokens
  refine ⟨?_, ?_, pending, calls, named, own'.set next own⟩
  · rw [holding_set_same found same]
    exact leased
  · rw [holding_set_same found same]
    exact held

theorem Tokens.quiet (tokens : Tokens s) (found : s.threads[i]? = some worker) (quiet : Quiet s t i worker) :
    Tokens t := by
  obtain ⟨free, position, idle, kept⟩ := quiet
  have moved := tokens.move { worker with position } found
    (by rw [Worker.token_of_free free, Worker.token_of_free idle])
    (fun task stands => by simp only at stands; simp [stands, Position.task] at idle)
  rw [kept]
  exact moved.frame rfl rfl (fun _ member => member) (fun _ member => member) (fun _ member => member) (Nat.le_refl _)

theorem Tokens.prepare (tokens : Tokens s) : Tokens (prepareToStartAdditionalThreadIfHelpful s) := by
  rcases prepare_cases s with same | ⟨started, _⟩
  · rw [same]
    exact tokens
  · rw [started]
    exact tokens.frame rfl rfl (fun _ member => member) (fun _ member => member) (fun _ member => member)
      (Nat.le_refl _)

variable {task : SequencedTask}

theorem scan_runnable {tasks : List SequencedTask} (found : (scan s tasks).status = .found task) :
    isSequenceTokenRunnable s task.sequenceTokenId = true := by
  induction tasks with
  | nil => cases found
  | cons first rest ih =>
    unfold scan at found
    split at found
    · exact ih found
    next runnable =>
      split at found
      · exact ih found
      · split at found
        · split at found <;> cases found
        · cases found
          simpa using runnable

theorem sequenceToken_eq_some {id : Nat} (valid : id ≠ 0) : sequenceToken id = some id := if_neg valid

section
variable (tokens : Tokens s)
include tokens

/-- The worker that takes a task takes its token, if it has one. -/
theorem Tokens.willRun (found : s.threads[i]? = some worker) (free : worker.position.task = none)
    (runnable : isSequenceTokenRunnable s task.sequenceTokenId = true)
    (known : task.sequenceTokenId ≤ s.lastSequenceNumber) :
    Tokens (release (willRunWorkerTask s task) i worker (.found task)) := by
  have token : Worker.token { worker with position := .found task } = sequenceToken task.sequenceTokenId := rfl
  have idle : holding s.threads i = none := by rw [holding_eq found, Worker.token_of_free free]
  unfold willRunWorkerTask
  rw [release_prepare]
  refine Tokens.prepare ?_
  obtain ⟨leased, held, pending, calls, named, own⟩ := tokens
  have stays := own.set (i := i) { worker with position := .found task } nofun
  by_cases valid : task.sequenceTokenId = 0
  · have none_ : sequenceToken task.sequenceTokenId = none := if_pos valid
    have kept : holding (s.threads.set i { worker with position := .found task }) = holding s.threads := by
      rw [holding_set found, token, none_, ← idle, Function.update_eq_self]
    refine ⟨?_, ?_, pending, calls, named, stays⟩
    · simp only [release, State.place, valid, ne_eq, not_true, if_false]
      rw [kept]
      exact leased
    · simp only [release, State.place]
      rw [kept]
      exact held
  · have some_ := sequenceToken_eq_some valid
    have unused : task.sequenceTokenId ∉ s.currentSequences := by
      simpa [isSequenceTokenRunnable, valid] using runnable
    refine ⟨?_, ?_, pending, calls, named, stays⟩
    · simp only [release, State.place, ne_eq, valid, not_false_eq_true, if_true]
      rw [holding_set found, token, some_]
      exact leased.take idle unused
    · intro j id holds
      simp only [release, State.place] at holds
      rw [holding_set found, token, some_] at holds
      by_cases here : j = i
      · rw [here, Function.update_self] at holds
        cases holds
        exact known
      · rw [Function.update_of_ne here] at holds
        exact held j id holds

theorem Tokens.getWork : Tokens (getWork s).2 :=
  tokens.frame rfl rfl (scan_mem s s.pendingTasks).1 (fun _ member => member) (fun _ member => member)
    (Nat.le_refl _)

theorem Tokens.threadLoop (found : s.threads[i]? = some worker) (atWork : worker.position = .work)
    (moved : threadLoop s i worker = some t) : Tokens t := by
  rcases threadLoop_cases atWork moved with ⟨task, taken, rfl⟩ | ⟨_, quiet⟩
  · have runnable : isSequenceTokenRunnable s task.sequenceTokenId = true := scan_runnable taken
    refine tokens.getWork.willRun found (by rw [atWork]; rfl) runnable ?_
    exact tokens.pending task ((scan_mem s s.pendingTasks).2 task taken)
  · exact tokens.getWork.quiet found quiet

/-- The worker that ends a task returns its token. -/
theorem Tokens.didRun (found : s.threads[i]? = some worker)
    (stands : worker.position = .processed task) :
    Tokens { (didRunWorkerTask s task).place i worker .top with lock := some i } := by
  have token : Worker.token { worker with position := .top } = none := rfl
  have before : holding s.threads i = sequenceToken task.sequenceTokenId := by
    rw [holding_eq found]
    simp only [Worker.token, stands]
  obtain ⟨leased, held, pending, calls, named, own⟩ := tokens
  have moved := own.set (i := i) { worker with position := .top } nofun
  by_cases valid : task.sequenceTokenId = 0
  · have none_ : sequenceToken task.sequenceTokenId = none := if_pos valid
    have kept : holding (s.threads.set i { worker with position := .top }) = holding s.threads := by
      rw [holding_set found, token, ← none_, ← before, Function.update_eq_self]
    refine ⟨?_, ?_, pending, calls, named, moved⟩
    · simp only [State.place, didRunWorkerTask, valid, ne_eq, not_true, if_false]
      rw [kept]
      exact leased
    · simp only [State.place, didRunWorkerTask]
      rw [kept]
      exact held
  · rw [sequenceToken_eq_some valid] at before
    refine ⟨?_, ?_, pending, calls, named, moved⟩
    · simp only [State.place, didRunWorkerTask, ne_eq, valid, not_false_eq_true, if_true]
      rw [holding_set found, token]
      exact leased.drop before
    · intro j id holds
      simp only [State.place, didRunWorkerTask] at holds
      rw [holding_set found, token] at holds
      by_cases here : j = i
      · rw [here, Function.update_self] at holds
        cases holds
      · rw [Function.update_of_ne here] at holds
        exact held j id holds

theorem Tokens.runTask (found : s.threads[i]? = some worker) (moved : runTask s i worker = some t) :
    Tokens t := by
  unfold SequencedWorkerPool.runTask at moved
  split at moved
  next task stands =>
    cases moved
    refine (tokens.move ⟨.processing task, true, task.sequenceTokenId, task.shutdownBehavior⟩ found
      ?_ ?_).frame rfl rfl (fun _ member => member) (fun _ member => member) (fun _ member => member)
      (Nat.le_refl _)
    · simp only [Worker.token, stands]
    · intro other same _
      cases same
      rfl
  next => cases moved

theorem Tokens.finishTask (found : s.threads[i]? = some worker)
    (moved : finishTask s i worker = some t) : Tokens t := by
  unfold SequencedWorkerPool.finishTask at moved
  split at moved
  next task stands =>
    cases moved
    refine tokens.move _ found ?_ nofun
    simp only [Worker.token, stands]
  next => cases moved

/-- A task without a token gets one that nobody has. -/
theorem Tokens.setRunningTaskInfo (found : s.threads[i]? = some worker)
    (moved : setRunningTaskInfo s i worker = some t) : Tokens t := by
  unfold SequencedWorkerPool.setRunningTaskInfo at moved
  split at moved
  next task stands =>
    split at moved
    next invalid =>
      have idle : holding s.threads i = none := by
        rw [holding_eq found]
        simp only [Worker.token, stands, sequenceToken, invalid, if_true]
      have unsequenced : task.sequenceTokenId = 0 := by
        by_contra valid
        exact valid (tokens.own i worker task found stands valid ▸ invalid)
      cases moved
      have token : Worker.token { worker with taskSequenceToken := s.lastSequenceNumber + 1 } =
          some (s.lastSequenceNumber + 1) := by
        simp only [Worker.token, stands]
        rfl
      have new : s.lastSequenceNumber + 1 ∉ s.currentSequences := by
        intro member
        obtain ⟨j, holds⟩ := (tokens.leased.exact _).mp member
        have known := tokens.held j _ holds
        omega
      obtain ⟨leased, held, pending, calls, named, own⟩ := tokens
      refine ⟨?_, ?_, ?_, ?_, ?_, ?_⟩
      · simp only
        rw [holding_set found, token]
        exact leased.take idle new
      · intro j id holds
        simp only at holds ⊢
        rw [holding_set found, token] at holds
        by_cases here : j = i
        · rw [here, Function.update_self] at holds
          cases holds
          exact Nat.le_refl _
        · rw [Function.update_of_ne here] at holds
          exact Nat.le_succ_of_le (held j id holds)
      · exact fun other member => Nat.le_succ_of_le (pending other member)
      · exact fun call member => issued_mono (Nat.le_succ _) (calls call member)
      · exact fun entry member => Nat.le_succ_of_le (named entry member)
      · refine own.set _ fun other same valid => ?_
        rw [stands] at same
        cases same
        exact (valid unsequenced).elim
    next => cases moved
  next => cases moved

theorem lockedGetNamedTokenId_spec [DecidableEq Name] (name : Name) :
    Tokens (lockedGetNamedTokenId s name).2 ∧
      (lockedGetNamedTokenId s name).1 ≤ (lockedGetNamedTokenId s name).2.lastSequenceNumber := by
  unfold lockedGetNamedTokenId
  split
  next id known =>
    refine ⟨tokens, ?_⟩
    obtain ⟨other, member⟩ : ∃ other, (other, id) ∈ s.namedSequenceTokens := by
      obtain ⟨before, after, same, _⟩ := List.lookup_eq_some_iff.mp known
      exact ⟨name, by rw [same]; simp⟩
    exact tokens.named _ member
  next =>
    have grown : Tokens (getSequenceToken s).2 :=
      tokens.frame rfl rfl (fun _ member => member) (fun _ member => member) (fun _ member => member) (Nat.le_succ _)
    obtain ⟨leased, held, pending, calls, named, own⟩ := grown
    refine ⟨⟨leased, held, pending, calls, fun entry member => ?_, own⟩, Nat.le_refl _⟩
    rcases List.mem_cons.mp member with rfl | earlier
    · exact Nat.le_refl _
    · exact named entry earlier

theorem tokenOf_spec [DecidableEq Name] {argument : TokenArgument Name}
    (known : issued s argument = true) :
    Tokens (tokenOf s argument).2 ∧ (tokenOf s argument).1 ≤ (tokenOf s argument).2.lastSequenceNumber := by
  cases argument with
  | token id => exact ⟨tokens, by simpa [issued, tokenOf] using known⟩
  | named name => exact lockedGetNamedTokenId_spec tokens name

theorem Tokens.postTask [DecidableEq Name] {call : Call Name}
    (known : issued s call.argument = true) : Tokens (postTask s call) := by
  unfold SequencedWorkerPool.postTask
  split
  next => exact tokens
  next =>
    dsimp only
    refine Tokens.prepare ?_
    have charged : ∀ s' : State Name, Tokens s' → issued s' call.argument = true →
        Tokens (enqueue (tokenOf s' call.argument).2 call (tokenOf s' call.argument).1) := by
      intro s' tokens' known'
      obtain ⟨⟨leased, held, pending, calls, named, own⟩, bound⟩ := tokenOf_spec tokens' known'
      refine ⟨leased, held, fun task member => ?_, calls, named, own⟩
      rcases List.mem_cons.mp ((insertTask_perm _ _).mem_iff.mp member) with rfl | earlier
      · exact bound
      · exact pending task earlier
    split
    · refine charged _ ?_ (issued_mono (Nat.le_refl _) known)
      exact tokens.frame rfl rfl (fun _ member => member) (fun _ member => member) (fun _ member => member)
        (Nat.le_refl _)
    · exact charged s tokens known

end

theorem holding_append (threads : List Worker) : holding (threads ++ [({} : Worker)]) = holding threads := by
  funext j
  unfold holding
  rcases Nat.lt_trichotomy j threads.length with inside | atEnd | beyond
  · rw [List.getElem?_append_left inside]
  · rw [atEnd, List.getElem?_concat_length, List.getElem?_eq_none (Nat.le_refl _)]
    rfl
  · rw [List.getElem?_eq_none (by simp; omega), List.getElem?_eq_none (by omega)]

theorem RunWithOwnToken.append (own : RunWithOwnToken threads) : RunWithOwnToken (threads ++ [({} : Worker)]) := by
  intro j worker task at_ stands
  rcases getElem?_concat_eq_some at_ with earlier | ⟨_, rfl⟩
  · exact own j worker task earlier stands
  · cases stands

theorem step_tokens [DecidableEq Name] {action : Action Name} (tokens : Tokens s) (moved : step s action = some t) :
    Tokens t := by
  cases action with
  | tick now =>
    obtain ⟨_, rfl⟩ := Library.of_guarded moved
    cases tokens
    constructor <;> assumption
  | getSequenceToken =>
    cases moved
    exact tokens.frame rfl rfl (fun _ member => member) (fun _ member => member) (fun _ member => member)
      (Nat.le_succ _)
  | getNamedSequenceToken name =>
    obtain ⟨_, rfl⟩ := Library.of_guarded moved
    exact (lockedGetNamedTokenId_spec tokens name).1
  | beginPostTask caller argument shutdownBehavior delay =>
    obtain ⟨⟨_, known⟩, rfl⟩ := Library.of_guarded moved
    obtain ⟨leased, held, pending, calls, named, own⟩ := tokens
    refine ⟨leased, held, pending, fun call member => ?_, named, own⟩
    rcases List.mem_append.mp member with earlier | new
    · exact issued_mono (Nat.le_refl _) (calls call earlier)
    · rw [List.mem_singleton.mp new]
      exact issued_mono (Nat.le_refl _) known
  | postTask k =>
    simp only [step] at moved
    split at moved
    next call found =>
      simp only [Option.ite_none_right_eq_some, Option.some.injEq] at moved
      obtain ⟨_, rfl⟩ := moved
      have known := tokens.calls call (List.mem_of_getElem? found)
      refine Tokens.postTask ?_ (issued_mono (Nat.le_refl _) known)
      exact tokens.frame rfl rfl (fun _ member => member) (fun _ member => List.mem_of_mem_eraseIdx member)
        (fun _ member => member) (Nat.le_refl _)
    next => cases moved
  | enterThreadLoop =>
    obtain ⟨_, rfl⟩ := Library.of_guarded moved
    obtain ⟨leased, held, pending, calls, named, own⟩ := tokens
    refine ⟨?_, ?_, pending, calls, named, own.append⟩
    · simp only [holding_append]
      exact leased
    · simp only [holding_append]
      exact held
  | handleCleanup i =>
    obtain ⟨_, worker, found, moved⟩ := Library.of_guarded_bind moved
    exact tokens.quiet found (handleCleanup_quiet moved)
  | threadLoop i =>
    obtain ⟨⟨_, stands⟩, worker, found, moved⟩ := Library.of_guarded_bind moved
    exact tokens.threadLoop found (by simpa [found] using stands) moved
  | wake i =>
    obtain ⟨_, worker, found, moved⟩ := Library.of_guarded_bind moved
    exact tokens.quiet found (wake_quiet found moved)
  | runTask i =>
    obtain ⟨_, worker, found, moved⟩ := Library.of_guarded_bind moved
    exact tokens.runTask found moved
  | setRunningTaskInfo i =>
    obtain ⟨_, worker, found, moved⟩ := Library.of_guarded_bind moved
    exact tokens.setRunningTaskInfo found moved
  | finishTask i =>
    obtain ⟨_, worker, found, moved⟩ := Library.of_guarded_bind moved
    exact tokens.finishTask found moved
  | didRunWorkerTask i =>
    obtain ⟨_, worker, found, moved⟩ := Library.of_guarded_bind moved
    split at moved
    next task stands =>
      cases moved
      exact tokens.didRun found stands
    next => cases moved
  | shutdown maxNew =>
    obtain ⟨_, rfl⟩ := Library.of_guarded moved
    split
    · exact tokens
    · cases tokens
      constructor <;> assumption
  | checkCanShutdown =>
    obtain ⟨_, rfl⟩ := Library.of_guarded moved
    cases tokens
    constructor <;> assumption
  | cleanupForTesting =>
    obtain ⟨_, rfl⟩ := Library.of_guarded moved
    split
    · exact tokens
    · cases tokens
      constructor <;> assumption

theorem tokens_initial (maxThreads : Nat) : Tokens (initial maxThreads : State Name) where
  leased := ⟨nofun, fun _ => ⟨fun member => absurd member (Finset.notMem_empty _), nofun⟩⟩
  held := nofun
  pending := nofun
  calls := nofun
  named := nofun
  own := nofun

end Libchrome.Base.SequencedWorkerPool
