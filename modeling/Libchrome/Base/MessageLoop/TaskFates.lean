import Mathlib.Tactic.SplitIfs
import Libchrome.Base.MessageLoop.TaskQueues
import Libchrome.Base.MessageLoop.Delegate

/-!
# Each task runs once, in order, or is destroyed

The tasks accepted are those started, those destroyed unrun and those in the four queues, each once.
The sequence numbers may roll over: among the tasks waiting at once they still tell the posts apart.
-/

namespace Libchrome.Base.MessageLoop.Delegate

open Library

variable {Closure : Type}

/-- The tasks in the four queues. -/
def Books.waiting (b : Books Closure) : List (Task Closure) :=
  b.deferred ++ (b.delayed ++ (b.work ++ b.incoming))

/-- The number of the next post and those of the tasks that wait lie within half the range of an `int`. -/
def Room (b : Books Closure) : Prop := ∀ task ∈ b.waiting, b.posted.length < task.task.position + 2 ^ 31

/-- Each task accepted finds room for its number. -/
def Windowed (s : State Closure) (action : Action Closure) : Prop := accepts s action = true → Room s.books

/-- The order of `delayed_work_queue_`: by the time, then by the post. -/
def Sooner (task other : Task Closure) : Prop :=
  task.delayedRunTime < other.delayedRunTime ∨
    task.delayedRunTime = other.delayedRunTime ∧ task.task.position < other.task.position

/-- A nestable task without a delay. -/
def Immediate (task : Task Closure) : Prop := task.nestable = true ∧ task.delayedRunTime = 0

/-- Every task accepted is started, destroyed or waiting, once; it has the number of its post. -/
structure Accounted (b : Books Closure) : Prop where
  conserved : (b.started.map (·.task) ++ (b.destroyed ++ b.waiting)).Perm b.posted
  positions : b.posted.map (·.task.position) = List.range b.posted.length
  numbers : ∀ task ∈ b.posted, task.sequenceNum = (task.task.position : Int).bmod (2 ^ 32)
  next : b.nextSequenceNum = (b.posted.length : Int).bmod (2 ^ 32)

/-- What the posts do to the window and to the queues of immediate tasks. -/
structure Lined (b : Books Closure) : Prop where
  near : ∀ task ∈ b.waiting, ∀ other ∈ b.waiting, other.task.position < task.task.position + 2 ^ 31
  waiting : (b.work ++ b.incoming).Pairwise fun task other => task.task.position < other.task.position
  taken : ∀ task, (task ∈ b.started.map (·.task) ∨ task ∈ b.deferred ∨ task ∈ b.delayed) →
    ∀ other, other ∈ b.work ∨ other ∈ b.incoming → task.task.position < other.task.position
  reloaded : ∀ task ∈ b.incoming, b.reloaded ≤ task.task.position
  earlier : b.reloaded ≤ b.posted.length

/-- Each queue holds the tasks it is for, and each task started was due. -/
structure Sorted (b : Books Closure) : Prop where
  clock : 0 ≤ b.now
  recent : b.recentTime ≤ b.now
  sooner : b.delayed.Pairwise Sooner
  delayed : ∀ task ∈ b.delayed, task.delayedRunTime ≠ 0
  deferred : ∀ task ∈ b.deferred, task.nestable = false ∧ task.delayedRunTime ≤ b.now
  due : ∀ start ∈ b.started, start.task.delayedRunTime ≤ start.time ∧
    (start.task.nestable = false → start.runDepth = 1)
  inOrder : b.started.Pairwise fun first second =>
    Immediate first.task → Immediate second.task → first.task.task.position < second.task.task.position

theorem bmod_sub_bmod_pos {p q : Nat} (near : p < q + 2 ^ 31) (near' : q < p + 2 ^ 31) :
    ((p : Int).bmod (2 ^ 32) - (q : Int).bmod (2 ^ 32)).bmod (2 ^ 32) > 0 ↔ q < p := by
  simp only [Int.bmod_def]
  split_ifs <;> omega

/-- Push a task behind those posted before it. -/
theorem push_sooner {queue : List (Task Closure)} {pending : Task Closure} (sorted : queue.Pairwise Sooner)
    (numbers : ∀ task ∈ pending :: queue, task.sequenceNum = (task.task.position : Int).bmod (2 ^ 32))
    (near : ∀ task ∈ queue, pending.task.position < task.task.position + 2 ^ 31)
    (last : ∀ task ∈ queue, task.task.position < pending.task.position) :
    (push pending queue).Pairwise Sooner := by
  induction queue with
  | nil => exact List.pairwise_singleton _ _
  | cons top rest ih =>
    obtain ⟨below, sorted⟩ := List.pairwise_cons.mp sorted
    have topLast := last top List.mem_cons_self
    have compare := bmod_sub_bmod_pos (Nat.lt_add_right (2 ^ 31) topLast) (near top List.mem_cons_self)
    rw [← numbers top (by simp), ← numbers pending (by simp)] at compare
    unfold push
    split
    next later =>
      have sooner : pending.delayedRunTime < top.delayedRunTime := by
        unfold PendingTask.less at later
        split_ifs at later with before after
        · exact after
        · have number := compare.mp (of_decide_eq_true later)
          omega
      refine List.pairwise_cons.mpr ⟨fun other member => ?_, List.pairwise_cons.mpr ⟨below, sorted⟩⟩
      rcases List.mem_cons.mp member with rfl | member
      · exact .inl sooner
      · have following := below other member
        unfold Sooner at *
        omega
    next notLater =>
      have topFirst : Sooner top pending := by
        unfold PendingTask.less at notLater
        unfold Sooner
        split_ifs at notLater with before after
        · exact .inl before
        · exact absurd rfl notLater
        · omega
      refine List.pairwise_cons.mpr ⟨fun other member => ?_, ih sorted ?_ ?_ ?_⟩
      · rcases mem_push.mp member with rfl | member
        · exact topFirst
        · exact below other member
      · intro task member
        apply numbers
        rcases List.mem_cons.mp member with rfl | member
        · simp
        · simp [member]
      · exact fun task member => near task (List.mem_cons_of_mem _ member)
      · exact fun task member => last task (List.mem_cons_of_mem _ member)

section Moves

variable {b c : Books Closure} {accepted : Bool}

theorem Accounted.position_lt (accounted : Accounted b) {task : Task Closure}
    (member : task ∈ b.started.map (·.task) ∨ task ∈ b.destroyed ∨ task ∈ b.waiting) :
    task.task.position < b.posted.length := by
  have posted : task ∈ b.posted := accounted.conserved.mem_iff.mp (by simpa using member)
  have place := List.mem_map_of_mem (f := (·.task.position)) posted
  rw [accounted.positions] at place
  exact List.mem_range.mp place

theorem Accounted.number (accounted : Accounted b) {task : Task Closure} (member : task ∈ b.waiting) :
    task.sequenceNum = (task.task.position : Int).bmod (2 ^ 32) :=
  accounted.numbers task (accounted.conserved.mem_iff.mp (by simp [member]))

/-- A move takes a task from one place to another, or adds the one that is posted. -/
theorem Moved.conserved (moved : Moved b accepted c)
    (conserved : (b.started.map (·.task) ++ (b.destroyed ++ b.waiting)).Perm b.posted) :
    (c.started.map (·.task) ++ (c.destroyed ++ c.waiting)).Perm c.posted := by
  classical
  rw [List.perm_iff_count] at conserved ⊢
  intro other
  have count := conserved other
  simp only [Books.waiting, List.count_append] at count
  cases moved with
  | still | tick | look => simpa only [Books.waiting, List.count_append] using count
  | post closure delay nestable pending built =>
    simp only [Books.waiting, List.count_append]
    omega
  | reload empty =>
    simp only [Books.waiting, List.count_append, empty, List.count_nil] at count ⊢
    omega
  | delay pending rest front late =>
    have pushed := (push_perm pending b.delayed).count_eq other
    simp only [Books.waiting, List.count_append, front, List.count_cons, pushed] at count ⊢
    omega
  | startWork pending rest depth front | deferWork pending rest front | startDelayed pending rest depth recent front
  | deferDelayed pending rest recent front | startDeferred pending rest front | destroyWork pending rest front
  | destroyDeferred pending rest front | destroyDelayed pending rest front =>
    simp only [Books.waiting, List.map_append, List.map_cons, List.map_nil, List.count_append, front,
      List.count_cons, List.count_nil] at count ⊢
    omega
  | destroyMembers | destroyIncoming =>
    simp only [Books.waiting, List.count_append, List.count_nil] at count ⊢
    omega

theorem Moved.accounted (moved : Moved b accepted c) (accounted : Accounted b) : Accounted c := by
  have conserved := moved.conserved accounted.conserved
  obtain ⟨_, positions, numbers, next⟩ := accounted
  cases moved with
  | post closure delay nestable pending built =>
    refine ⟨conserved, ?_, ?_, ?_⟩
    · simp only [List.map_append, List.map_cons, List.map_nil, List.length_append, List.length_singleton,
        List.range_succ, positions, built]
    · intro task member
      rcases List.mem_append.mp member with old | new
      · exact numbers task old
      · rw [List.mem_singleton.mp new, built]
        exact next
    · simp only [next, List.length_append, List.length_singleton, Nat.cast_add, Nat.cast_one]
      simp only [Int.bmod_def]
      split_ifs <;> omega
  | still | tick | look | reload | delay | startWork | deferWork | startDelayed | deferDelayed | startDeferred
  | destroyWork | destroyDeferred | destroyDelayed | destroyMembers | destroyIncoming =>
    exact ⟨conserved, positions, numbers, next⟩

/-- Tasks that leave the queues, or move on in them, stay in line. -/
theorem Lined.shrink (lined : Lined b) (waiting : ∀ task ∈ c.waiting, task ∈ b.waiting)
    (line : (c.work ++ c.incoming).Sublist (b.work ++ b.incoming))
    (taken : ∀ task, (task ∈ c.started.map (·.task) ∨ task ∈ c.deferred ∨ task ∈ c.delayed) →
      (task ∈ b.started.map (·.task) ∨ task ∈ b.deferred ∨ task ∈ b.delayed) ∨
        b.work = task :: c.work ∧ b.incoming = c.incoming)
    (incoming : c.incoming = b.incoming) (reloaded : c.reloaded = b.reloaded) (posted : c.posted = b.posted) :
    Lined c := by
  refine ⟨fun task member other member' => lined.near task (waiting task member) other (waiting other member'),
    lined.waiting.sublist line, fun task place other waits => ?_, ?_, ?_⟩
  · have inside : other ∈ b.work ∨ other ∈ b.incoming := by
      have member := line.subset (List.mem_append.mpr waits)
      exact List.mem_append.mp member
    rcases taken task place with old | ⟨front, same⟩
    · exact lined.taken task old other inside
    · have first := lined.waiting
      rw [front, List.cons_append, List.pairwise_cons, same] at first
      exact first.1 other (List.mem_append.mpr waits)
  · rw [incoming, reloaded]
    exact lined.reloaded
  · rw [reloaded, posted]
    exact lined.earlier

theorem Moved.lined (moved : Moved b accepted c) (accounted : Accounted b) (lined : Lined b)
    (room : accepted = true → Room b) : Lined c := by
  cases moved with
  | still => exact lined
  | tick | look => exact ⟨lined.near, lined.waiting, lined.taken, lined.reloaded, lined.earlier⟩
  | post closure delay nestable pending built =>
    have place : pending.task.position = b.posted.length := by rw [built]
    have near := room rfl
    have old : ∀ task, task ∈ b.started.map (·.task) ∨ task ∈ b.deferred ∨ task ∈ b.delayed ∨ task ∈ b.work ∨
        task ∈ b.incoming → task.task.position < b.posted.length := by
      intro task member
      apply accounted.position_lt
      simp only [Books.waiting, List.mem_append]
      tauto
    refine ⟨?_, ?_, ?_, ?_, ?_⟩
    · intro task member other member'
      have split : ∀ task, task ∈ b.deferred ++ (b.delayed ++ (b.work ++ (b.incoming ++ [pending]))) →
          task ∈ b.waiting ∨ task = pending := by
        intro task
        simp only [Books.waiting, List.mem_append, List.mem_singleton]
        tauto
      have below : ∀ task, task ∈ b.waiting → task.task.position < b.posted.length := fun task waits =>
        accounted.position_lt (.inr (.inr waits))
      rcases split task member with waits | rfl
      · rcases split other member' with waits' | rfl
        · exact lined.near task waits other waits'
        · have := near task waits
          omega
      · rcases split other member' with waits' | rfl
        · have := below other waits'
          omega
        · omega
    · rw [← List.append_assoc]
      refine List.pairwise_append.mpr ⟨lined.waiting, List.pairwise_singleton _ _, fun task member other new => ?_⟩
      rw [List.mem_singleton.mp new, place]
      exact old task (by have := List.mem_append.mp member; tauto)
    · intro task member other waits
      simp only [List.mem_append, List.mem_singleton] at waits
      rcases waits with work | incoming | rfl
      · exact lined.taken task member other (.inl work)
      · exact lined.taken task member other (.inr incoming)
      · rw [place]
        exact old task (by tauto)
    · intro task member
      rcases List.mem_append.mp member with waits | new
      · exact lined.reloaded task waits
      · rw [List.mem_singleton.mp new, place]
        exact lined.earlier
    · have := lined.earlier
      simp only [List.length_append]
      omega
  | reload empty =>
    have line := lined.waiting
    rw [empty, List.nil_append] at line
    refine ⟨?_, by simpa using line, ?_, fun _ member => (List.not_mem_nil member).elim, Nat.le_refl _⟩
    · have near := lined.near
      simp only [Books.waiting, empty, List.nil_append] at near
      simpa only [Books.waiting, List.append_nil] using near
    · intro task member other waits
      rcases waits with waits | waits
      · exact lined.taken task member other (.inr waits)
      · exact (List.not_mem_nil waits).elim
  | delay pending rest front late =>
    apply lined.shrink
    · intro task member
      simp only [Books.waiting, List.mem_append, mem_push, front, List.mem_cons] at member ⊢
      tauto
    · rw [front]
      exact List.sublist_cons_self _ _
    · intro task place
      rw [mem_push] at place
      rcases place with old | old | rfl | old
      · exact .inl (.inl old)
      · exact .inl (.inr (.inl old))
      · exact .inr ⟨front, rfl⟩
      · exact .inl (.inr (.inr old))
    · rfl
    · rfl
    · rfl
  | startWork pending rest depth front | deferWork pending rest front | destroyWork pending rest front =>
    apply lined.shrink
    · intro task member
      simp only [Books.waiting, List.mem_append, front, List.mem_cons] at member ⊢
      tauto
    · rw [front]
      exact List.sublist_cons_self _ _
    · intro task place
      simp only [List.map_append, List.map_cons, List.map_nil, List.mem_append, List.mem_singleton] at place
      by_cases same : task = pending
      · rw [same]
        exact .inr ⟨front, rfl⟩
      · exact .inl (by tauto)
    · rfl
    · rfl
    · rfl
  | startDelayed pending rest depth recent front | deferDelayed pending rest recent front | startDeferred pending rest front
  | destroyDeferred pending rest front | destroyDelayed pending rest front =>
    apply lined.shrink
    · intro task member
      simp only [Books.waiting, List.mem_append, front, List.mem_cons] at member ⊢
      tauto
    · exact List.Sublist.refl _
    · intro task place
      simp only [List.map_append, List.map_cons, List.map_nil, List.mem_append, front,
        List.mem_cons] at place ⊢
      tauto
    · rfl
    · rfl
    · rfl
  | destroyMembers =>
    apply lined.shrink
    · intro task member
      simp only [Books.waiting, List.mem_append, List.nil_append] at member ⊢
      exact .inr (.inr (.inr member))
    · exact List.sublist_append_right _ _
    · intro task place
      rcases place with old | none_ | none_
      · exact .inl (.inl old)
      · exact (List.not_mem_nil none_).elim
      · exact (List.not_mem_nil none_).elim
    · rfl
    · rfl
    · rfl
  | destroyIncoming =>
    refine ⟨?_, ?_, ?_, fun _ member => (List.not_mem_nil member).elim, lined.earlier⟩
    · intro task member other member'
      simp only [Books.waiting, List.mem_append, List.append_nil] at member member'
      apply lined.near
      · simp only [Books.waiting, List.mem_append]
        tauto
      · simp only [Books.waiting, List.mem_append]
        tauto
    · exact lined.waiting.sublist (by simp)
    · intro task place other waits
      exact lined.taken task place other (by simpa using Or.inl (by simpa using waits))

end Moves

end Libchrome.Base.MessageLoop.Delegate
