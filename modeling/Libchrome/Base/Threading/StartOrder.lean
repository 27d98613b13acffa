import Libchrome.Base.Threading.SequenceOrder

/-!
# The pool keeps its sequences

No two workers run tasks of one token, tasks of one token that are posted one after the other start in
that order, and no task starts twice.
-/

namespace Libchrome.Base.SequencedWorkerPool

open Library

variable {Name : Type}

/-- Taken tasks are neither pending nor started, and a task starts before those it precedes. -/
structure Started (s : State Name) : Prop where
  taken : ∀ i task, Found s i task → IsAccepted s task ∧ task.sequenceTaskNumber ∉ s.started ∧
    ∀ other ∈ s.pendingTasks, other.sequenceTaskNumber ≠ task.sequenceTaskNumber
  distinct : ∀ i j first second, Found s i first → Found s j second →
    first.sequenceTaskNumber = second.sequenceTaskNumber → i = j
  fresh : ∀ task ∈ s.pendingTasks, task.sequenceTaskNumber ∉ s.started
  known : ∀ n ∈ s.started, n < s.accepted.length
  once : s.started.Nodup
  behind : ∀ first ∈ s.pendingTasks, ∀ b, Precedes s first.sequenceTaskNumber b →
    b ∉ s.started ∧ ∀ i second, Found s i second → second.sequenceTaskNumber ≠ b
  settled : ∀ i first b, Found s i first → Precedes s first.sequenceTaskNumber b → b ∉ s.started
  inOrder : ∀ (a b k l : Nat), Precedes s a b → s.started[k]? = some a → s.started[l]? = some b → k < l

section Steps

variable {s t : State Name} {i : Nat} {worker : Worker} {task : SequencedTask}

theorem Precedes.frame {a b : Nat} (precedes : Precedes t a b) (accepted : t.accepted = s.accepted) :
    Precedes s a b := by
  unfold Precedes at *
  rwa [accepted] at precedes

/-- The invariant depends on these members only; tasks may have left the set and the workers. -/
theorem Started.frame (started : Started s) (accepted : t.accepted = s.accepted) (starts : t.started = s.started)
    (pending : t.pendingTasks ⊆ s.pendingTasks) (found : ∀ i task, Found t i task → Found s i task) :
    Started t where
  taken i task isFound := by
    obtain ⟨known, new, absent⟩ := started.taken i task (found i task isFound)
    refine ⟨?_, starts ▸ new, fun other member => absent other (pending member)⟩
    unfold IsAccepted
    rwa [accepted]
  distinct i j first second isFirst isSecond :=
    started.distinct i j first second (found i first isFirst) (found j second isSecond)
  fresh task member := starts ▸ started.fresh task (pending member)
  known := by
    rw [starts, accepted]
    exact started.known
  once := starts ▸ started.once
  behind first member b precedes := by
    obtain ⟨new, absent⟩ := started.behind first (pending member) b (precedes.frame accepted)
    exact ⟨starts ▸ new, fun i second isFound => absent i second (found i second isFound)⟩
  settled i first b isFound precedes :=
    starts ▸ started.settled i first b (found i first isFound) (precedes.frame accepted)
  inOrder a b k l precedes := by
    rw [starts]
    exact started.inOrder a b k l (precedes.frame accepted)

theorem Started.calm (started : Started s) (calm : Calm s t) : Started t :=
  started.frame calm.accepted calm.started calm.pending.subset calm.found

theorem IsAccepted.lt (known : IsAccepted s task) : task.sequenceTaskNumber < s.accepted.length := by
  obtain ⟨entry, found, _⟩ := known
  exact (List.getElem?_eq_some_iff.mp found).1

theorem IsAccepted.eq {other : SequencedTask} (known : IsAccepted s task) (knownOther : IsAccepted s other)
    (same : task.sequenceTaskNumber = other.sequenceTaskNumber) : task = other := by
  obtain ⟨entry, found, rfl⟩ := known
  obtain ⟨entry', found', rfl⟩ := knownOther
  rw [same, found'] at found
  rw [Option.some.inj found]

/-- A task that is accepted precedes none of those before it. -/
theorem Precedes.of_enqueue {call : Call Name} {id a b : Nat} (posted : Posted s)
    (begun : call.begun ≤ s.accepted.length) (precedes : Precedes (enqueue s call id) a b) :
    Precedes s a b ∨ (b = s.accepted.length ∧ a < b) := by
  obtain ⟨first, second, isFirst, isSecond, direct, directSecond, same, valid, before⟩ := precedes
  rcases getElem?_concat_eq_some isSecond with earlier | ⟨rfl, rfl⟩
  · rcases getElem?_concat_eq_some isFirst with earlierFirst | ⟨rfl, rfl⟩
    · exact .inl ⟨first, second, earlierFirst, earlier, direct, directSecond, same, valid, before⟩
    · have inside := (List.getElem?_eq_some_iff.mp earlier).1
      have bound := (posted.numbered b second earlier).2
      omega
  · refine .inr ⟨rfl, ?_⟩
    simp only at before
    omega

theorem Precedes.lt {a b : Nat} (posted : Posted s) (precedes : Precedes s a b) : a < b := by
  obtain ⟨_, second, _, isSecond, _, _, _, _, before⟩ := precedes
  have bound := (posted.numbered b second isSecond).2
  omega

theorem Started.enqueue (started : Started s) (posted : Posted s) {call : Call Name}
    (begun : call.begun ≤ s.accepted.length) (id : Nat) : Started (enqueue s call id) := by
  obtain ⟨taken, distinct, fresh, known, once, behind, settled, inOrder⟩ := started
  have unstarted : s.accepted.length ∉ s.started := fun member => Nat.lt_irrefl _ (known _ member)
  refine ⟨fun i task found => ?_, distinct, fun task member => ?_, fun n member => ?_, once,
    fun first member b precedes => ?_, fun i first b found precedes => ?_, fun a b k l precedes isFirst isSecond => ?_⟩
  · obtain ⟨accepted, new, absent⟩ := taken i task found
    refine ⟨accepted.concat rfl, new, fun other member => ?_⟩
    rcases List.mem_cons.mp ((insertTask_perm _ _).mem_iff.mp member) with rfl | earlier
    · have inside := accepted.lt
      have size := posted.size
      simp only
      omega
    · exact absent other earlier
  · rcases List.mem_cons.mp ((insertTask_perm _ _).mem_iff.mp member) with rfl | earlier
    · exact posted.size ▸ unstarted
    · exact fresh task earlier
  · have inside := known n member
    simp only [SequencedWorkerPool.enqueue, List.length_append]
    omega
  · rcases precedes.of_enqueue posted begun with earlier | ⟨rfl, inside⟩
    · rcases List.mem_cons.mp ((insertTask_perm _ _).mem_iff.mp member) with rfl | isEarlier
      · obtain ⟨_, _, isFirst, _⟩ := earlier
        have inside := (List.getElem?_eq_some_iff.mp isFirst).1
        have size := posted.size
        simp only at inside
        omega
      · exact behind first isEarlier b earlier
    · refine ⟨unstarted, fun i second found => ?_⟩
      exact Nat.ne_of_lt (taken i second found).1.lt
  · rcases precedes.of_enqueue posted begun with earlier | ⟨rfl, _⟩
    · exact settled i first b found earlier
    · exact unstarted
  · rcases precedes.of_enqueue posted begun with earlier | ⟨rfl, _⟩
    · exact inOrder a b k l earlier isFirst isSecond
    · exact (unstarted (List.mem_of_getElem? isSecond)).elim

/-- The worker that takes a task is the only one that has found a task since. -/
theorem found_set {next : Worker} {j : Nat} {other : SequencedTask} (threads : t.threads = s.threads.set i next)
    (found : Found t j other) : (j = i ∧ next.position = .found other) ∨ (j ≠ i ∧ Found s j other) := by
  obtain ⟨worker, at_, stands⟩ := found
  rw [threads] at at_
  rcases getElem?_set_eq_some at_ with ⟨here, rfl⟩ | ⟨there, at_⟩
  · exact .inl ⟨here, stands⟩
  · exact .inr ⟨there, worker, at_, stands⟩

/-- `GetWork` takes the first of the tasks of its token. -/
theorem Started.take (started : Started s) (posted : Posted s)
    (status : (scan s s.pendingTasks).status = .found task) (accepted : t.accepted = s.accepted)
    (starts : t.started = s.started) (pending : t.pendingTasks = (scan s s.pendingTasks).pending)
    (threads : t.threads = s.threads.set i { worker with position := .found task }) : Started t := by
  have member := (scan_mem s s.pendingTasks).2 task status
  have known := posted.known task member
  have stays := (scan_mem s s.pendingTasks).1
  have gone := scan_takes posted.sorted status
  obtain ⟨taken, distinct, fresh, numbers, once, behind, settled, inOrder⟩ := started
  have split : ∀ j other, Found t j other → (j = i ∧ other = task) ∨ (j ≠ i ∧ Found s j other) := by
    intro j other found
    rcases found_set threads found with ⟨here, same⟩ | there
    · cases same
      exact .inl ⟨here, rfl⟩
    · exact .inr there
  have same : ∀ other, IsAccepted s other → IsAccepted t other := by
    intro other accepted'
    unfold IsAccepted
    rwa [accepted]
  refine ⟨fun j other found => ?_, fun j k first second isFirst isSecond number => ?_, fun other pending' => ?_,
    ?_, starts ▸ once, fun first pending' b precedes => ?_, fun j first b found precedes => ?_,
    fun a b k l precedes => ?_⟩
  · rcases split j other found with ⟨_, rfl⟩ | ⟨_, earlier⟩
    · refine ⟨same other known, starts ▸ fresh other member, fun next left number => ?_⟩
      rw [pending] at left
      exact gone ((posted.known next (stays next left)).eq known number ▸ left)
    · obtain ⟨accepted', new, absent⟩ := taken j other earlier
      refine ⟨same other accepted', starts ▸ new, fun next left => absent next ?_⟩
      rw [pending] at left
      exact stays next left
  · rcases split j first isFirst with ⟨here, rfl⟩ | ⟨_, earlier⟩
    · rcases split k second isSecond with ⟨there, _⟩ | ⟨_, earlier⟩
      · rw [here, there]
      · exact ((taken k second earlier).2.2 first member number).elim
    · rcases split k second isSecond with ⟨_, rfl⟩ | ⟨_, earlierSecond⟩
      · exact ((taken j first earlier).2.2 second member number.symm).elim
      · exact distinct j k first second earlier earlierSecond number
  · rw [pending] at pending'
    exact starts ▸ fresh other (stays other pending')
  · rw [starts, accepted]
    exact numbers
  · rw [pending] at pending'
    obtain ⟨new, absent⟩ := behind first (stays first pending') b (precedes.frame accepted)
    refine ⟨starts ▸ new, fun j second found number => ?_⟩
    rcases split j second found with ⟨_, rfl⟩ | ⟨_, earlier⟩
    · -- the first task is due, so the second one stays behind it
      rw [← number] at precedes
      obtain ⟨ahead, token, _, due, dueSecond⟩ :=
        posted.before (posted.known first (stays first pending')) known (precedes.frame accepted)
      exact gone (scan_behind posted.sorted (stays first pending') member ahead token due dueSecond pending')
    · exact absent j second earlier number
  · rw [starts]
    rcases split j first found with ⟨_, rfl⟩ | ⟨_, earlier⟩
    · exact (behind first member b (precedes.frame accepted)).1
    · exact settled j first b earlier (precedes.frame accepted)
  · rw [starts]
    exact inOrder a b k l (precedes.frame accepted)

theorem not_precedes_found (tokens : Tokens s) (posted : Posted s) {j : Nat} {first second : SequencedTask}
    (isFirst : Found s i first) (isSecond : Found s j second) (accepted : IsAccepted s first)
    (acceptedSecond : IsAccepted s second) :
    ¬Precedes s first.sequenceTaskNumber second.sequenceTaskNumber := by
  intro precedes
  obtain ⟨_, token, valid, _⟩ := posted.before accepted acceptedSecond precedes
  obtain ⟨one, at_, stands⟩ := isFirst
  obtain ⟨two, atSecond, standsSecond⟩ := isSecond
  have holds : holding s.threads i = some first.sequenceTokenId := by
    rw [holding_eq at_, Worker.token, stands]
    exact sequenceToken_eq_some valid
  have holdsSecond : holding s.threads j = some first.sequenceTokenId := by
    rw [holding_eq atSecond, Worker.token, standsSecond, token]
    exact sequenceToken_eq_some (token ▸ valid)
  have same := tokens.leased.exclusive i j _ holds holdsSecond
  rw [same, atSecond] at at_
  cases at_
  rw [stands] at standsSecond
  cases standsSecond
  exact Nat.lt_irrefl _ (precedes.lt posted)

/-- A worker starts the task it has found. -/
theorem Started.run (started : Started s) (tokens : Tokens s) (posted : Posted s)
    (found : s.threads[i]? = some worker) (moved : runTask s i worker = some t) : Started t := by
  unfold runTask at moved
  split at moved
  next task stands =>
    have isFound : Found s i task := ⟨worker, found, stands⟩
    have others : ∀ j other, Found t j other → j ≠ i ∧ Found s j other := by
      cases moved
      intro j other found'
      rcases found_set rfl found' with ⟨_, same⟩ | there
      · cases same
      · exact there
    cases moved
    obtain ⟨taken, distinct, fresh, numbers, once, behind, settled, inOrder⟩ := started
    obtain ⟨accepted, new, absent⟩ := taken i task isFound
    refine ⟨fun j other found' => ?_, fun j k first second isFirst isSecond => ?_, fun other pending => ?_,
      fun n member => ?_, ?_, fun first pending b precedes => ?_, fun j first b found' precedes => ?_,
      fun a b k l precedes isFirst isSecond => ?_⟩
    · obtain ⟨there, earlier⟩ := others j other found'
      obtain ⟨accepted', new', absent'⟩ := taken j other earlier
      refine ⟨accepted', fun member => ?_, absent'⟩
      rcases List.mem_append.mp member with before | last
      · exact new' before
      · exact there (distinct j i other task earlier isFound (List.mem_singleton.mp last))
    · exact distinct j k first second (others j first isFirst).2 (others k second isSecond).2
    · intro member
      rcases List.mem_append.mp member with before | last
      · exact fresh other pending before
      · exact absent other pending (List.mem_singleton.mp last)
    · rcases List.mem_append.mp member with before | last
      · exact numbers n before
      · rw [List.mem_singleton.mp last]
        exact accepted.lt
    · exact List.nodup_append.mpr ⟨once, List.nodup_singleton _, fun a before b last same =>
        new (List.mem_singleton.mp last ▸ same ▸ before)⟩
    · obtain ⟨new', absent'⟩ := behind first pending b precedes
      refine ⟨fun member => ?_, fun j second found' => absent' j second (others j second found').2⟩
      rcases List.mem_append.mp member with before | last
      · exact new' before
      · exact absent' i task isFound (List.mem_singleton.mp last).symm
    · obtain ⟨_, earlier⟩ := others j first found'
      intro member
      rcases List.mem_append.mp member with before | last
      · exact settled j first b earlier precedes before
      · rw [List.mem_singleton.mp last] at precedes
        exact not_precedes_found tokens posted earlier isFound (taken j first earlier).1 accepted precedes
    · rcases getElem?_concat_eq_some isSecond with before | ⟨rfl, rfl⟩
      · rcases getElem?_concat_eq_some isFirst with beforeFirst | ⟨_, rfl⟩
        · exact inOrder a b k l precedes beforeFirst before
        · exact (settled i task b isFound precedes (List.mem_of_getElem? before)).elim
      · rcases getElem?_concat_eq_some isFirst with beforeFirst | ⟨_, rfl⟩
        · exact (List.getElem?_eq_some_iff.mp beforeFirst).1
        · exact (Nat.lt_irrefl _ (precedes.lt posted)).elim
  next => cases moved

theorem calm_self : Calm s s :=
  ⟨rfl, rfl, rfl, rfl, fun _ member => member, .refl _, fun _ _ found => found⟩

theorem Calm.trans {u : State Name} (first : Calm s t) (second : Calm t u) : Calm s u where
  accepted := second.accepted.trans first.accepted
  number := second.number.trans first.number
  now := second.now.trans first.now
  started := second.started.trans first.started
  calls call member := first.calls call (second.calls call member)
  pending := second.pending.trans first.pending
  found i task found := first.found i task (second.found i task found)

theorem calm_prepare (s : State Name) : Calm s (prepareToStartAdditionalThreadIfHelpful s) := by
  rcases prepare_cases s with same | ⟨started, _⟩
  · rw [same]
    exact calm_self
  · rw [started]
    exact ⟨rfl, rfl, rfl, rfl, fun _ member => member, .refl _, fun _ _ found => found⟩

theorem calm_getNamed [DecidableEq Name] (s : State Name) (name : Name) :
    Calm s (lockedGetNamedTokenId s name).2 := by
  rw [lockedGetNamedTokenId_cases]
  exact ⟨rfl, rfl, rfl, rfl, fun _ member => member, .refl _, fun _ _ found => found⟩

theorem calm_tokenOf [DecidableEq Name] (s : State Name) (argument : TokenArgument Name) :
    Calm s (tokenOf s argument).2 := by
  cases argument with
  | token id => exact calm_self
  | named name => exact calm_getNamed s name

theorem found_of_set {next : Worker} (notFound : ∀ task, next.position ≠ .found task) (j : Nat)
    (other : SequencedTask) (found : Found { s with threads := s.threads.set i next } j other) :
    Found s j other := by
  rcases found_set rfl found with ⟨_, same⟩ | ⟨_, earlier⟩
  · exact (notFound other same).elim
  · exact earlier

theorem calm_quiet (quiet : Quiet s t i worker) : Calm s t := by
  obtain ⟨_, position, idle, same⟩ := quiet
  rw [same]
  refine ⟨rfl, rfl, rfl, rfl, fun _ member => member, .refl _, ?_⟩
  refine found_of_set fun task stands => ?_
  simp only at stands
  simp [stands, Position.task] at idle

theorem calm_getWork (s : State Name) : Calm s (getWork s).2 :=
  ⟨rfl, rfl, rfl, rfl, fun _ member => member, scan_sublist s s.pendingTasks, fun _ _ found => found⟩

theorem calm_enter (s : State Name) :
    Calm s { s with threadBeingCreated := false, threads := s.threads ++ [{}], lock := some s.threads.length } := by
  refine ⟨rfl, rfl, rfl, rfl, fun _ member => member, .refl _, ?_⟩
  rintro j task ⟨worker, at_, stands⟩
  rcases getElem?_concat_eq_some at_ with earlier | ⟨_, rfl⟩
  · exact ⟨worker, earlier, stands⟩
  · cases stands

theorem calm_finish (moved : finishTask s i worker = some t) : Calm s t := by
  unfold finishTask at moved
  split at moved
  next =>
    cases moved
    exact ⟨rfl, rfl, rfl, rfl, fun _ member => member, .refl _, found_of_set nofun⟩
  next => cases moved

theorem calm_setRunning (moved : setRunningTaskInfo s i worker = some t) : Calm s t := by
  unfold setRunningTaskInfo at moved
  split at moved
  next stands =>
    split at moved
    · cases moved
      exact ⟨rfl, rfl, rfl, rfl, fun _ member => member, .refl _, found_of_set (by simp [stands])⟩
    · cases moved
  next => cases moved

theorem calm_didRun (s : State Name) (i : Nat) (worker : Worker) (task : SequencedTask) :
    Calm s { (didRunWorkerTask s task).place i worker .top with lock := some i } :=
  ⟨rfl, rfl, rfl, rfl, fun _ member => member, .refl _, found_of_set nofun⟩

end Steps

/-- What holds between the sections of the pool. -/
structure Sequenced (s : State Name) : Prop where
  tokens : Tokens s
  posted : Posted s
  started : Started s

section Run

variable {s t : State Name} {i : Nat} {worker : Worker}

theorem posted_started_postTask [DecidableEq Name] {call : Call Name} (posted : Posted s) (started : Started s)
    (reads : CallReadsClock s call) : Posted (postTask s call) ∧ Started (postTask s call) := by
  have accept : ∀ s' : State Name, Calm s s' →
      Posted (enqueue (tokenOf s' call.argument).2 call (tokenOf s' call.argument).1) ∧
        Started (enqueue (tokenOf s' call.argument).2 call (tokenOf s' call.argument).1) := by
    intro s' calm
    have named := calm.trans (calm_tokenOf s' call.argument)
    have reads' := reads.frame named.accepted named.now
    exact ⟨(posted.calm named).enqueue reads' _, (started.calm named).enqueue (posted.calm named) reads'.begun _⟩
  unfold postTask
  split
  next => exact ⟨posted, started⟩
  next =>
    dsimp only
    split
    · obtain ⟨posted', started'⟩ := accept { s with
          maxBlockingTasksAfterShutdown := s.maxBlockingTasksAfterShutdown - 1
          acceptedAfterShutdown := s.acceptedAfterShutdown + 1 }
        ⟨rfl, rfl, rfl, rfl, fun _ member => member, .refl _, fun _ _ found => found⟩
      exact ⟨posted'.calm (calm_prepare _), started'.calm (calm_prepare _)⟩
    · obtain ⟨posted', started'⟩ := accept s calm_self
      exact ⟨posted'.calm (calm_prepare _), started'.calm (calm_prepare _)⟩

theorem posted_started_threadLoop (posted : Posted s) (started : Started s)
    (atWork : worker.position = .work) (moved : threadLoop s i worker = some t) : Posted t ∧ Started t := by
  rcases threadLoop_cases atWork moved with ⟨task, taken, rfl⟩ | ⟨_, quiet⟩
  · unfold willRunWorkerTask
    rw [release_prepare]
    refine ⟨Posted.calm ?_ (calm_prepare _), Started.calm ?_ (calm_prepare _)⟩
    · exact posted.frame rfl rfl rfl (fun _ member => member) (scan_sublist s s.pendingTasks)
    · exact started.take posted taken rfl rfl rfl rfl
  · have calm := (calm_getWork s).trans (calm_quiet quiet)
    exact ⟨posted.calm calm, started.calm calm⟩

theorem Sequenced.calm (sequenced : Sequenced s) (tokens : Tokens t) (calm : Calm s t) : Sequenced t :=
  ⟨tokens, sequenced.posted.calm calm, sequenced.started.calm calm⟩

theorem step_sequenced [DecidableEq Name] {action : Action Name} (sequenced : Sequenced s)
    (moved : step s action = some t) : Sequenced t := by
  have tokens := step_tokens sequenced.tokens moved
  have posted := sequenced.posted
  have started := sequenced.started
  cases action with
  | tick now =>
    obtain ⟨later, rfl⟩ := Library.of_guarded moved
    exact ⟨tokens, posted.tick later, started.frame rfl rfl (fun _ member => member) (fun _ _ found => found)⟩
  | getSequenceToken =>
    cases moved
    exact sequenced.calm tokens ⟨rfl, rfl, rfl, rfl, fun _ member => member, .refl _, fun _ _ found => found⟩
  | getNamedSequenceToken name =>
    obtain ⟨_, rfl⟩ := Library.of_guarded moved
    exact sequenced.calm tokens (calm_getNamed s name)
  | beginPostTask caller argument shutdownBehavior delay =>
    obtain ⟨_, rfl⟩ := Library.of_guarded moved
    exact ⟨tokens, posted.begin caller argument shutdownBehavior delay, started.frame rfl rfl (fun _ member => member) (fun _ _ found => found)⟩
  | postTask k =>
    simp only [step] at moved
    split at moved
    next call found =>
      simp only [Option.ite_none_right_eq_some, Option.some.injEq] at moved
      obtain ⟨_, rfl⟩ := moved
      have ended : Calm s { s with calls := s.calls.eraseIdx k } :=
        ⟨rfl, rfl, rfl, rfl, fun _ member => List.mem_of_mem_eraseIdx member, .refl _, fun _ _ found => found⟩
      have reads := (posted.calls call (List.mem_of_getElem? found)).frame ended.accepted ended.now
      obtain ⟨posted', started'⟩ := posted_started_postTask (posted.calm ended) (started.calm ended) reads
      exact ⟨tokens, posted', started'⟩
    next => cases moved
  | enterThreadLoop =>
    obtain ⟨_, rfl⟩ := Library.of_guarded moved
    exact sequenced.calm tokens (calm_enter s)
  | handleCleanup i =>
    obtain ⟨_, worker, _, moved⟩ := Library.of_guarded_bind moved
    exact sequenced.calm tokens (calm_quiet (handleCleanup_quiet moved))
  | threadLoop i =>
    obtain ⟨⟨_, stands⟩, worker, found, moved⟩ := Library.of_guarded_bind moved
    obtain ⟨posted', started'⟩ := posted_started_threadLoop posted started (by simpa [found] using stands) moved
    exact ⟨tokens, posted', started'⟩
  | wake i =>
    obtain ⟨_, worker, found, moved⟩ := Library.of_guarded_bind moved
    exact sequenced.calm tokens (calm_quiet (wake_quiet found moved))
  | runTask i =>
    obtain ⟨_, worker, found, moved⟩ := Library.of_guarded_bind moved
    have started' := started.run sequenced.tokens posted found moved
    refine ⟨tokens, ?_, started'⟩
    unfold runTask at moved
    split at moved <;> cases moved
    exact posted.frame rfl rfl rfl (fun _ member => member) (.refl _)
  | setRunningTaskInfo i =>
    obtain ⟨_, worker, _, moved⟩ := Library.of_guarded_bind moved
    exact sequenced.calm tokens (calm_setRunning moved)
  | finishTask i =>
    obtain ⟨_, worker, _, moved⟩ := Library.of_guarded_bind moved
    exact sequenced.calm tokens (calm_finish moved)
  | didRunWorkerTask i =>
    obtain ⟨_, worker, _, moved⟩ := Library.of_guarded_bind moved
    split at moved <;> cases moved
    exact sequenced.calm tokens (calm_didRun s i worker _)
  | shutdown maxNew =>
    obtain ⟨_, rfl⟩ := Library.of_guarded moved
    refine sequenced.calm tokens ?_
    split
    · exact calm_self
    · exact ⟨rfl, rfl, rfl, rfl, fun _ member => member, .refl _, fun _ _ found => found⟩
  | checkCanShutdown =>
    obtain ⟨_, rfl⟩ := Library.of_guarded moved
    exact sequenced.calm tokens ⟨rfl, rfl, rfl, rfl, fun _ member => member, .refl _, fun _ _ found => found⟩
  | cleanupForTesting =>
    obtain ⟨_, rfl⟩ := Library.of_guarded moved
    refine sequenced.calm tokens ?_
    split
    · exact calm_self
    · exact ⟨rfl, rfl, rfl, rfl, fun _ member => member, .refl _, fun _ _ found => found⟩

end Run

theorem not_found_initial {maxThreads i : Nat} {task : SequencedTask} :
    ¬ Found (initial maxThreads : State Name) i task := by
  rintro ⟨worker, found, _⟩
  exact Option.some_ne_none worker (found.symm.trans List.getElem?_nil)

theorem posted_initial (maxThreads : Nat) : Posted (initial maxThreads : State Name) where
  clock := Int.le_refl 0
  size := rfl
  numbered _ entry accepted := absurd (accepted.symm.trans List.getElem?_nil) (Option.some_ne_none entry)
  past _ entry accepted := absurd (accepted.symm.trans List.getElem?_nil) (Option.some_ne_none entry)
  later _ _ first _ accepted := absurd (accepted.symm.trans List.getElem?_nil) (Option.some_ne_none first)
  calls _ member := absurd member List.not_mem_nil
  sorted := .nil
  known _ member := absurd member List.not_mem_nil

theorem started_initial (maxThreads : Nat) : Started (initial maxThreads : State Name) where
  taken _ _ found := absurd found not_found_initial
  distinct _ _ _ _ found := absurd found not_found_initial
  fresh _ member := absurd member List.not_mem_nil
  known _ member := absurd member List.not_mem_nil
  once := .nil
  behind _ member := absurd member List.not_mem_nil
  settled _ _ _ found := absurd found not_found_initial
  inOrder a _ _ _ _ start := absurd (start.symm.trans List.getElem?_nil) (Option.some_ne_none a)

theorem sequenced_initial (maxThreads : Nat) : Sequenced (initial maxThreads : State Name) :=
  ⟨tokens_initial maxThreads, posted_initial maxThreads, started_initial maxThreads⟩

/-- At no time do two workers run tasks of one token, of two tasks of a token of which one was posted
after the other the first one starts first, and no task starts twice. -/
theorem pool_keeps_sequences [DecidableEq Name] (maxThreads : Nat) (s : State Name)
    (reached : Reaches step (fun _ _ => True) (initial maxThreads) s) :
    (∀ (i j : Nat) (worker other : Worker) (task otherTask : SequencedTask),
      s.threads[i]? = some worker → s.threads[j]? = some other →
      worker.position = .processing task → other.position = .processing otherTask → i ≠ j →
      (task.sequenceTokenId ≠ 0 → task.sequenceTokenId ≠ otherTask.sequenceTokenId) ∧
      (worker.taskSequenceToken ≠ 0 → worker.taskSequenceToken ≠ other.taskSequenceToken)) ∧
    (∀ a b k l : Nat, Precedes s a b → s.started[k]? = some a → s.started[l]? = some b → k < l) ∧
    (∀ (n : Nat) (entry : Accepted), s.accepted[n]? = some entry → entry.task.sequenceTaskNumber = n) ∧
    s.started.Nodup := by
  have sequenced : Sequenced s :=
    reached.invariant Sequenced (sequenced_initial maxThreads) fun _ _ _ sequenced _ moved =>
      step_sequenced sequenced moved
  have apart : ∀ (i j : Nat) (worker other : Worker) (task otherTask : SequencedTask),
      s.threads[i]? = some worker → s.threads[j]? = some other → worker.position = .processing task →
      other.position = .processing otherTask → i ≠ j → worker.taskSequenceToken ≠ 0 →
      worker.taskSequenceToken ≠ other.taskSequenceToken := by
    intro i j worker other task otherTask isFirst isSecond runs runsOther different valid same
    refine different (sequenced.tokens.leased.exclusive i j worker.taskSequenceToken ?_ ?_)
    · rw [holding_eq isFirst, Worker.token, runs]
      exact sequenceToken_eq_some valid
    · rw [holding_eq isSecond, Worker.token, runsOther, same]
      exact sequenceToken_eq_some (same ▸ valid)
  refine ⟨?_, sequenced.started.inOrder, fun n entry found => (sequenced.posted.numbered n entry found).1,
    sequenced.started.once⟩
  intro i j worker other task otherTask isFirst isSecond runs runsOther different
  have first := apart i j worker other task otherTask isFirst isSecond runs runsOther different
  refine ⟨fun valid same => ?_, first⟩
  have own := sequenced.tokens.own i worker task isFirst runs valid
  have ownOther := sequenced.tokens.own j other otherTask isSecond runsOther (same ▸ valid)
  exact first (own ▸ valid) (by rw [own, ownOther, same])

/-- A second worker passes over the second task of a token while the first one runs. -/
def skippedSequence : List (Action Nat) :=
  [.beginPostTask none (.named 0) .blockShutdown 0, .postTask 0,
    .beginPostTask none (.named 0) .skipOnShutdown 0, .postTask 0,
    .beginPostTask none (.token 0) .continueOnShutdown 0, .postTask 0, .enterThreadLoop,
    .handleCleanup 0, .threadLoop 0, .enterThreadLoop, .handleCleanup 1, .threadLoop 1, .runTask 1,
    .runTask 0, .finishTask 0, .didRunWorkerTask 0, .handleCleanup 0, .threadLoop 0, .runTask 0]

theorem pool_keeps_sequences_skipped : ∃ s : State Nat, s.started = [2, 0, 1] ∧ Precedes s 0 1 ∧
    s.started.Nodup := by
  obtain ⟨s, ran⟩ : ∃ s, runFrom step (fun _ _ => True) (initial 3) skippedSequence = some s := ⟨_, rfl⟩
  have kept := pool_keeps_sequences 3 s (Reaches.start.run ran)
  refine ⟨s, ?_, ?_, kept.2.2.2⟩
  · cases ran
    rfl
  · cases ran
    exact ⟨_, _, rfl, rfl, rfl, rfl, rfl, by decide, by decide⟩

end Libchrome.Base.SequencedWorkerPool
