import Libchrome.Base.Threading.SequencedWorkerPool

/-!
# What the sections of the pool can do

One lemma for each section that several invariants follow: a worker that waits, wakes up or cleans up
changes no task, and `ThreadLoop` takes at most the one task that `GetWork` has found.
-/

namespace Libchrome.Base.SequencedWorkerPool

variable {Name : Type}

/-- The task that a worker has taken and not yet ended. -/
def Position.task : Position → Option SequencedTask
  | .found task | .processing task | .processed task => some task
  | _ => none

theorem insertTask_perm (task : SequencedTask) (tasks : List SequencedTask) :
    (insertTask task tasks).Perm (task :: tasks) := by
  induction tasks with
  | nil => exact .refl _
  | cons first rest ih =>
    unfold insertTask
    split
    · exact (ih.cons first).trans (.swap task first rest)
    · exact .refl _

/-- `PrepareToStartAdditionalThreadIfHelpful` marks a thread as being created, if there is room. -/
theorem prepare_cases (s : State Name) :
    prepareToStartAdditionalThreadIfHelpful s = s ∨
      (prepareToStartAdditionalThreadIfHelpful s = { s with threadBeingCreated := true } ∧
        s.threadBeingCreated = false ∧ s.threads.length < s.maxThreads) := by
  unfold prepareToStartAdditionalThreadIfHelpful
  split
  next helpful =>
    simp only [Bool.and_eq_true, Bool.not_eq_true', decide_eq_true_eq] at helpful
    exact .inr ⟨rfl, helpful.1.1.1.1.2, helpful.1.1.2⟩
  next => exact .inl rfl

/-- Whether another thread helps does not depend on what a worker does. -/
theorem release_prepare (s : State Name) (i : Nat) (worker : Worker) (position : Position) :
    release (prepareToStartAdditionalThreadIfHelpful s) i worker position =
      prepareToStartAdditionalThreadIfHelpful (release s i worker position) := by
  unfold prepareToStartAdditionalThreadIfHelpful release State.place isSequenceTokenRunnable
  simp only [List.length_set]
  split <;> rfl

theorem lockedGetNamedTokenId_cases [DecidableEq Name] (s : State Name) (name : Name) :
    (lockedGetNamedTokenId s name).2 = { s with
      lastSequenceNumber := (lockedGetNamedTokenId s name).2.lastSequenceNumber
      namedSequenceTokens := (lockedGetNamedTokenId s name).2.namedSequenceTokens } := by
  unfold lockedGetNamedTokenId
  split <;> rfl

/-- What `GetWork` leaves pending was pending, and so was the task it takes. -/
theorem scan_mem (s : State Name) (tasks : List SequencedTask) :
    (∀ task ∈ (scan s tasks).pending, task ∈ tasks) ∧
      ∀ task, (scan s tasks).status = .found task → task ∈ tasks := by
  induction tasks with
  | nil => exact ⟨nofun, nofun⟩
  | cons first rest ih =>
    unfold scan
    split
    · refine ⟨fun task member => ?_, fun task found => List.mem_cons_of_mem _ (ih.2 task found)⟩
      rcases List.mem_cons.mp member with rfl | member
      · exact List.mem_cons_self
      · exact List.mem_cons_of_mem _ (ih.1 task member)
    · split
      · exact ⟨fun task member => List.mem_cons_of_mem _ (ih.1 task member),
          fun task found => List.mem_cons_of_mem _ (ih.2 task found)⟩
      · split
        · split
          · exact ⟨fun task member => List.mem_cons_of_mem _ member, nofun⟩
          · exact ⟨fun task member => member, nofun⟩
        · refine ⟨fun task member => List.mem_cons_of_mem _ member, fun task found => ?_⟩
          cases found
          exact List.mem_cons_self

/-- A worker without a task goes on without one, and nothing else changes but the lock and what the
waits count. -/
structure Quiet (s t : State Name) (i : Nat) (worker : Worker) : Prop where
  free : worker.position.task = none
  same : ∃ position : Position, position.task = none ∧
    t = { s with
      threads := s.threads.set i { worker with position }
      lock := t.lock
      cleanupState := t.cleanupState
      cleanupIdlers := t.cleanupIdlers
      waitingThreadCount := t.waitingThreadCount }

section Sections

variable {s t : State Name} {i : Nat} {worker : Worker}

theorem awaitIdlers_quiet (free : worker.position.task = none) : Quiet s (awaitIdlers s i worker) i worker := by
  unfold awaitIdlers
  split
  · exact ⟨free, .cleaner, rfl, rfl⟩
  · exact ⟨free, .work, rfl, rfl⟩

theorem awaitFinish_quiet (free : worker.position.task = none) : Quiet s (awaitFinish s i worker) i worker := by
  unfold awaitFinish
  split
  · exact ⟨free, .finisher, rfl, rfl⟩
  · exact ⟨free, .work, rfl, rfl⟩

theorem handleCleanup_quiet (moved : handleCleanup s i worker = some t) : Quiet s t i worker := by
  have free : worker.position.task = none := by
    unfold handleCleanup at moved
    cases position : worker.position <;> simp_all [Position.task]
  unfold handleCleanup at moved
  split at moved
  next =>
    cases moved
    split
    next => exact ⟨free, .work, rfl, rfl⟩
    next => exact ⟨free, .work, rfl, rfl⟩
    next =>
      obtain ⟨_, position, idle, same⟩ :=
        awaitIdlers_quiet (s := { s with cleanupState := .starting }) (i := i) free
      exact ⟨free, position, idle, same⟩
    next => exact ⟨free, .idler, rfl, rfl⟩
    next => exact awaitFinish_quiet free
  next =>
    cases moved
    exact awaitIdlers_quiet free
  next =>
    cases moved
    split
    · exact ⟨free, .idler, rfl, rfl⟩
    · exact ⟨free, .work, rfl, rfl⟩
  next =>
    cases moved
    exact awaitFinish_quiet free
  next => cases moved

theorem wake_quiet (found : s.threads[i]? = some worker) (moved : wake s i worker = some t) :
    Quiet s t i worker := by
  have kept : s.threads.set i worker = s.threads := by
    obtain ⟨inside, same⟩ := List.getElem?_eq_some_iff.mp found
    rw [← same, List.set_getElem_self]
  unfold wake at moved
  split at moved
  next stands =>
    cases moved
    exact ⟨by rw [stands]; rfl, .top, rfl, rfl⟩
  next stands =>
    cases moved
    exact ⟨by rw [stands]; rfl, .top, rfl, rfl⟩
  next stands =>
    cases moved
    exact ⟨by rw [stands]; rfl, worker.position, by rw [stands]; rfl, by simp [kept]⟩
  next stands =>
    cases moved
    exact ⟨by rw [stands]; rfl, worker.position, by rw [stands]; rfl, by simp [kept]⟩
  next stands =>
    cases moved
    exact ⟨by rw [stands]; rfl, worker.position, by rw [stands]; rfl, by simp [kept]⟩
  next => cases moved

/-- `ThreadLoop` begins the task that `GetWork` has found, or lets the worker wait, delete or exit. -/
theorem threadLoop_cases (atWork : worker.position = .work) (moved : threadLoop s i worker = some t) :
    (∃ task, (scan s s.pendingTasks).status = .found task ∧
      t = release (willRunWorkerTask (getWork s).2 task) i worker (.found task)) ∨
    ((∀ task, (scan s s.pendingTasks).status ≠ .found task) ∧ Quiet (getWork s).2 t i worker) := by
  have free : worker.position.task = none := by rw [atWork]; rfl
  unfold threadLoop at moved
  have status : (getWork s).1.status = (scan s s.pendingTasks).status := rfl
  rw [← status]
  generalize getWork s = got at moved
  obtain ⟨work, s'⟩ := got
  dsimp only at moved ⊢
  split at moved
  next task found =>
    cases moved
    exact .inl ⟨task, found, rfl⟩
  next none_ =>
    refine .inr ⟨none_, ?_⟩
    split at moved
    · split at moved
      · cases moved
        exact ⟨free, .deleting, rfl, rfl⟩
      · split at moved
        · cases moved
          exact ⟨free, .top, rfl, rfl⟩
        · cases moved
    · split at moved
      · cases moved
        exact ⟨free, .exited, rfl, rfl⟩
      · split at moved
        · cases moved
          exact ⟨free, .idle, rfl, rfl⟩
        · cases moved
          exact ⟨free, .deleting, rfl, rfl⟩

end Sections

end Libchrome.Base.SequencedWorkerPool
