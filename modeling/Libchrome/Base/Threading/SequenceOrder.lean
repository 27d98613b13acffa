import Libchrome.Base.Threading.SequenceTokens

/-!
# Tasks of one token start in the order of their posts

The pending tasks are sorted by time and number, and `GetWork` passes over a task only if its token is
held, it is deleted or its time has not come. So of two tasks of a token that were posted one after the
other the first leaves the set no later than the second, and the token keeps the second from starting
while the first is on its way.
-/

namespace Libchrome.Base.SequencedWorkerPool

open Library

variable {Name : Type}

/-- Two tasks of one token, posted without a delay: the call of `PostTask` for the second one began
after the critical section of the first one, hence whenever it began after the first call returned. -/
def Precedes (s : State Name) (a b : Nat) : Prop :=
  ∃ first second, s.accepted[a]? = some first ∧ s.accepted[b]? = some second ∧ first.delay = 0 ∧
    second.delay = 0 ∧ first.task.sequenceTokenId = second.task.sequenceTokenId ∧
    first.task.sequenceTokenId ≠ 0 ∧ a < second.begun

/-- The order of `pending_tasks_`. -/
def Before (first second : SequencedTask) : Prop :=
  first.timeToRun < second.timeToRun ∨
    first.timeToRun = second.timeToRun ∧ first.sequenceTaskNumber < second.sequenceTaskNumber

theorem lessThan_iff_before {first second : SequencedTask} :
    first.lessThan second = true ↔ Before first second := by
  unfold SequencedTask.lessThan Before
  split_ifs <;> simp <;> omega

theorem Before.trans {first second third : SequencedTask} (early : Before first second)
    (late : Before second third) : Before first third := by
  unfold Before at *
  omega

theorem Before.irrefl {task : SequencedTask} : ¬Before task task := by
  unfold Before
  omega

theorem insertTask_before {task : SequencedTask} {tasks : List SequencedTask} (sorted : tasks.Pairwise Before)
    (new : ∀ other ∈ tasks, other.sequenceTaskNumber ≠ task.sequenceTaskNumber) :
    (insertTask task tasks).Pairwise Before := by
  induction tasks with
  | nil => exact List.pairwise_singleton _ _
  | cons first rest ih =>
    obtain ⟨below, sorted⟩ := List.pairwise_cons.mp sorted
    unfold insertTask
    split
    next early =>
      refine List.pairwise_cons.mpr ⟨fun other member => ?_, ih sorted fun other member =>
        new other (List.mem_cons_of_mem _ member)⟩
      rcases List.mem_cons.mp ((insertTask_perm _ _).mem_iff.mp member) with rfl | member
      · exact lessThan_iff_before.mp early
      · exact below other member
    next notEarly =>
      have ahead : Before task first := by
        have number := new first List.mem_cons_self
        rw [lessThan_iff_before] at notEarly
        unfold Before at *
        omega
      refine List.pairwise_cons.mpr ⟨fun other member => ?_, List.pairwise_cons.mpr ⟨below, sorted⟩⟩
      rcases List.mem_cons.mp member with rfl | member
      · exact ahead
      · exact ahead.trans (below other member)

section Scan

variable {s : State Name} {tasks : List SequencedTask}

theorem scan_sublist (s : State Name) (tasks : List SequencedTask) : (scan s tasks).pending.Sublist tasks := by
  induction tasks with
  | nil => exact .slnil
  | cons first rest ih =>
    unfold scan
    split
    · exact ih.cons_cons first
    · split
      · exact ih.cons first
      · split
        · split
          · exact .cons _ (.refl _)
          · exact .refl _
        · exact .cons _ (.refl _)

theorem scan_keeps {task : SequencedTask} (member : task ∈ tasks)
    (blocked : isSequenceTokenRunnable s task.sequenceTokenId = false) : task ∈ (scan s tasks).pending := by
  induction tasks with
  | nil => cases member
  | cons first rest ih =>
    by_cases here : task = first
    · unfold scan
      rw [if_pos (by simp [← here, blocked])]
      exact here ▸ List.mem_cons_self
    · have later := ih (List.mem_of_ne_of_mem here member)
      unfold scan
      split
      · exact List.mem_cons_of_mem _ later
      · split
        · exact later
        · split
          · split
            · exact List.mem_of_ne_of_mem here member
            · exact member
          · exact List.mem_of_ne_of_mem here member

/-- The task that `GetWork` takes is no longer pending. -/
theorem scan_takes {task : SequencedTask} (sorted : tasks.Pairwise Before)
    (found : (scan s tasks).status = .found task) : task ∉ (scan s tasks).pending := by
  induction tasks with
  | nil => cases found
  | cons first rest ih =>
    obtain ⟨below, sorted⟩ := List.pairwise_cons.mp sorted
    unfold scan at found ⊢
    split at found
    next blocked =>
      rw [if_pos blocked]
      intro member
      rcases List.mem_cons.mp member with rfl | member
      · exact Before.irrefl (below _ ((scan_mem s rest).2 _ found))
      · exact ih sorted found member
    next runnable =>
      rw [if_neg runnable]
      split at found
      next skipped =>
        rw [if_pos skipped]
        exact ih sorted found
      next kept =>
        rw [if_neg kept]
        split at found
        · split at found <;> cases found
        next due =>
          cases found
          rw [if_neg due]
          exact fun member => Before.irrefl (below _ member)

/-- Of two due tasks of one token, the one behind does not leave the set while the first one stays. -/
theorem scan_behind {first second : SequencedTask} (sorted : tasks.Pairwise Before)
    (isFirst : first ∈ tasks) (isSecond : second ∈ tasks) (ahead : Before first second)
    (same : first.sequenceTokenId = second.sequenceTokenId) (due : first.timeToRun ≤ s.now)
    (dueSecond : second.timeToRun ≤ s.now) (stays : first ∈ (scan s tasks).pending) :
    second ∈ (scan s tasks).pending := by
  induction tasks with
  | nil => cases isFirst
  | cons top rest ih =>
    obtain ⟨below, sorted⟩ := List.pairwise_cons.mp sorted
    have notTop : second ≠ top := by
      rintro rfl
      rcases List.mem_cons.mp isFirst with rfl | later
      · exact Before.irrefl ahead
      · exact Before.irrefl (ahead.trans (below first later))
    have later := List.mem_of_ne_of_mem notTop isSecond
    by_cases blocked : isSequenceTokenRunnable s second.sequenceTokenId = false
    · exact scan_keeps isSecond blocked
    · unfold scan at stays ⊢
      by_cases here : first = top
      · -- the first task is runnable and due, so it is deleted or taken
        have notBelow : first ∉ rest := fun member => Before.irrefl (here ▸ below first member)
        rw [← here] at stays
        rw [if_neg (by rw [same]; simpa using blocked)] at stays
        split at stays
        · exact (notBelow ((scan_mem s rest).1 first stays)).elim
        · rw [if_neg (by omega)] at stays
          exact (notBelow stays).elim
      · have isFirst := List.mem_of_ne_of_mem here isFirst
        split at stays
        next held =>
          rw [if_pos held]
          exact List.mem_cons_of_mem _ (ih sorted isFirst later (List.mem_of_ne_of_mem here stays))
        next free =>
          rw [if_neg free]
          split at stays
          next skipped =>
            rw [if_pos skipped]
            exact ih sorted isFirst later stays
          next kept =>
            rw [if_neg kept]
            split
            · split
              · exact later
              · exact isSecond
            · exact later

end Scan

/-- The time of a post without a delay. -/
def postTime (s : State Name) : Int :=
  saturatedAdd 0 s.now

theorem saturatedAdd_mono {first second : Int} (clock : 0 ≤ first) (later : first ≤ second) :
    saturatedAdd 0 first ≤ saturatedAdd 0 second := by
  unfold saturatedAdd int64Max
  split_ifs <;> omega

theorem saturatedAdd_le {now : Int} (clock : 0 ≤ now) : saturatedAdd 0 now ≤ now := by
  unfold saturatedAdd int64Max
  split_ifs <;> omega

/-- A task under the number it was accepted with. -/
def IsAccepted (s : State Name) (task : SequencedTask) : Prop :=
  ∃ entry, s.accepted[task.sequenceTaskNumber]? = some entry ∧ entry.task = task

/-- A call of `PostTask` has read a clock that no earlier post had passed. -/
structure CallReadsClock (s : State Name) (call : Call Name) : Prop where
  begun : call.begun ≤ s.accepted.length
  past : call.delay = 0 → call.timeToRun ≤ postTime s
  later : call.delay = 0 → ∀ (n : Nat) (entry : Accepted), n < call.begun →
    s.accepted[n]? = some entry → entry.delay = 0 → entry.task.timeToRun ≤ call.timeToRun

/-- The tasks that were accepted, and the pending ones among them. -/
structure Posted (s : State Name) : Prop where
  clock : 0 ≤ s.now
  size : s.accepted.length = s.nextSequenceTaskNumber
  numbered : ∀ (n : Nat) (entry : Accepted), s.accepted[n]? = some entry →
    entry.task.sequenceTaskNumber = n ∧ entry.begun ≤ n
  past : ∀ (n : Nat) (entry : Accepted), s.accepted[n]? = some entry → entry.delay = 0 →
    entry.task.timeToRun ≤ postTime s
  later : ∀ (a b : Nat) (first second : Accepted), s.accepted[a]? = some first →
    s.accepted[b]? = some second → first.delay = 0 → second.delay = 0 → a < second.begun →
    first.task.timeToRun ≤ second.task.timeToRun
  calls : ∀ call ∈ s.calls, CallReadsClock s call
  sorted : s.pendingTasks.Pairwise Before
  known : ∀ task ∈ s.pendingTasks, IsAccepted s task

/-- A worker has taken a task and not started it. -/
def Found (s : State Name) (i : Nat) (task : SequencedTask) : Prop :=
  ∃ worker : Worker, s.threads[i]? = some worker ∧ worker.position = .found task

/-- No task is accepted, taken or started; calls may end and tasks be deleted. -/
structure Calm (s t : State Name) : Prop where
  accepted : t.accepted = s.accepted
  number : t.nextSequenceTaskNumber = s.nextSequenceTaskNumber
  now : t.now = s.now
  started : t.started = s.started
  calls : ∀ call ∈ t.calls, call ∈ s.calls
  pending : t.pendingTasks.Sublist s.pendingTasks
  found : ∀ i task, Found t i task → Found s i task

section Posted

variable {s t : State Name}

theorem CallReadsClock.frame {call : Call Name} (reads : CallReadsClock s call)
    (accepted : t.accepted = s.accepted) (now : t.now = s.now) : CallReadsClock t call where
  begun := accepted ▸ reads.begun
  past direct := by
    unfold postTime
    rw [now]
    exact reads.past direct
  later := accepted ▸ reads.later

/-- The invariant depends on these members only; calls may have ended and tasks left the set. -/
theorem Posted.frame (posted : Posted s) (accepted : t.accepted = s.accepted)
    (number : t.nextSequenceTaskNumber = s.nextSequenceTaskNumber) (now : t.now = s.now)
    (calls : ∀ call ∈ t.calls, call ∈ s.calls) (pending : t.pendingTasks.Sublist s.pendingTasks) :
    Posted t where
  clock := now ▸ posted.clock
  size := by rw [accepted, number, posted.size]
  numbered := accepted ▸ posted.numbered
  past := by
    unfold postTime
    rw [accepted, now]
    exact posted.past
  later := accepted ▸ posted.later
  calls call member := (posted.calls call (calls call member)).frame accepted now
  sorted := posted.sorted.sublist pending
  known task member := by
    unfold IsAccepted
    rw [accepted]
    exact posted.known task (pending.subset member)

theorem Posted.calm (posted : Posted s) (calm : Calm s t) : Posted t :=
  posted.frame calm.accepted calm.number calm.now calm.calls calm.pending

theorem Posted.tick (posted : Posted s) {now : Int} (later : s.now ≤ now) : Posted { s with now } := by
  have grown : postTime s ≤ saturatedAdd 0 now := saturatedAdd_mono posted.clock later
  obtain ⟨clock, size, numbered, past, ordered, calls, sorted, known⟩ := posted
  refine ⟨Int.le_trans clock later, size, numbered, fun n entry found direct => ?_, ordered,
    fun call member => ?_, sorted, known⟩
  · exact Int.le_trans (past n entry found direct) grown
  · obtain ⟨begun, before, after⟩ := calls call member
    exact ⟨begun, fun direct => Int.le_trans (before direct) grown, after⟩

/-- A call that begins reads the clock. -/
theorem Posted.begin (posted : Posted s) (caller : Option Nat) (argument : TokenArgument Name)
    (shutdownBehavior : WorkerShutdown) (delay : Int) :
    Posted { s with calls := s.calls ++
      [⟨caller, argument, shutdownBehavior, delay, saturatedAdd delay s.now, s.accepted.length⟩] } := by
  obtain ⟨clock, size, numbered, past, ordered, calls, sorted, known⟩ := posted
  refine ⟨clock, size, numbered, past, ordered, fun call member => ?_, sorted, known⟩
  rcases List.mem_append.mp member with earlier | new
  · exact ⟨(calls call earlier).begun, (calls call earlier).past, (calls call earlier).later⟩
  · rw [List.mem_singleton.mp new]
    refine ⟨Nat.le_refl _, fun direct => ?_, fun direct n entry _ found immediate => ?_⟩
    · exact Int.le_of_eq (congrArg (saturatedAdd · s.now) direct)
    · have before := past n entry found immediate
      simp only at direct ⊢
      rw [direct]
      exact before

theorem IsAccepted.concat {task : SequencedTask} (known : IsAccepted s task) {entry : Accepted}
    (grown : t.accepted = s.accepted ++ [entry]) : IsAccepted t task := by
  obtain ⟨other, found, same⟩ := known
  refine ⟨other, ?_, same⟩
  rw [grown, List.getElem?_append_left (List.getElem?_eq_some_iff.mp found).1, found]

/-- A task enters the pending ones under the next number. -/
theorem Posted.enqueue (posted : Posted s) {call : Call Name} (reads : CallReadsClock s call) (id : Nat) :
    Posted (enqueue s call id) := by
  obtain ⟨clock, size, numbered, past, ordered, calls, sorted, known⟩ := posted
  have unused : ∀ other ∈ s.pendingTasks, other.sequenceTaskNumber ≠ s.nextSequenceTaskNumber := by
    intro other member
    obtain ⟨entry, found, _⟩ := known other member
    have inside := (List.getElem?_eq_some_iff.mp found).1
    omega
  refine ⟨clock, ?_, fun n entry found => ?_, fun n entry found direct => ?_, ?_, fun other member => ?_,
    insertTask_before sorted unused, fun task member => ?_⟩
  · simp only [SequencedWorkerPool.enqueue, List.length_append, List.length_singleton, size]
  · rcases getElem?_concat_eq_some found with earlier | ⟨rfl, rfl⟩
    · exact numbered n entry earlier
    · exact ⟨size.symm, reads.begun⟩
  · rcases getElem?_concat_eq_some found with earlier | ⟨rfl, rfl⟩
    · exact past n entry earlier direct
    · exact reads.past direct
  · intro a b first second isFirst isSecond direct directSecond before
    rcases getElem?_concat_eq_some isSecond with earlier | ⟨rfl, rfl⟩
    · rcases getElem?_concat_eq_some isFirst with earlierFirst | ⟨rfl, rfl⟩
      · exact ordered a b first second earlierFirst earlier direct directSecond before
      · -- the new task precedes none that was accepted before it
        have inside := (List.getElem?_eq_some_iff.mp earlier).1
        have begun := (numbered b second earlier).2
        omega
    · rcases getElem?_concat_eq_some isFirst with earlierFirst | ⟨rfl, rfl⟩
      · exact reads.later directSecond a first before earlierFirst direct
      · have begun := reads.begun
        simp only at before
        omega
  · obtain ⟨begun, before, after⟩ := calls other member
    refine ⟨?_, before, fun direct n entry inside found => ?_⟩
    · simp only [SequencedWorkerPool.enqueue, List.length_append]
      omega
    · rcases getElem?_concat_eq_some found with earlier | ⟨rfl, rfl⟩
      · exact after direct n entry inside earlier
      · omega
  · rcases List.mem_cons.mp ((insertTask_perm _ _).mem_iff.mp member) with rfl | earlier
    · refine ⟨⟨_, call.delay, call.begun⟩, ?_, rfl⟩
      simp only [SequencedWorkerPool.enqueue, ← size, List.getElem?_concat_length]
    · exact (known task earlier).concat rfl

/-- Of two tasks that one call precedes the other, the first has its place before the second. -/
theorem Posted.before (posted : Posted s) {first second : SequencedTask} (isFirst : IsAccepted s first)
    (isSecond : IsAccepted s second)
    (precedes : Precedes s first.sequenceTaskNumber second.sequenceTaskNumber) :
    Before first second ∧ first.sequenceTokenId = second.sequenceTokenId ∧ first.sequenceTokenId ≠ 0 ∧
      first.timeToRun ≤ s.now ∧ second.timeToRun ≤ s.now := by
  obtain ⟨one, two, foundOne, foundTwo, direct, directTwo, same, valid, begun⟩ := precedes
  obtain ⟨one', foundOne', rfl⟩ := isFirst
  obtain ⟨two', foundTwo', rfl⟩ := isSecond
  cases Option.some.inj (foundOne.symm.trans foundOne')
  cases Option.some.inj (foundTwo.symm.trans foundTwo')
  have times := posted.later _ _ one two foundOne foundTwo direct directTwo begun
  have order := (posted.numbered _ two foundTwo).2
  have due := saturatedAdd_le posted.clock
  refine ⟨?_, same, valid, Int.le_trans (posted.past _ one foundOne direct) due,
    Int.le_trans (posted.past _ two foundTwo directTwo) due⟩
  unfold Before
  omega

end Posted

end Libchrome.Base.SequencedWorkerPool
