import Mathlib.Tactic.SplitIfs
import Libchrome.Library.Positions
import Libchrome.Base.MessageLoop.TaskQueues

/-!
# The order in which a loop starts its tasks

Tasks leave the incoming queue in the order of their posts and the delayed queue in the order of
their times. A task deferred by a nested run loop waits for `DoIdleWork`, and is overtaken when the
outermost run loop takes a later non-nestable task from another queue; nothing else is overtaken.
-/

namespace Libchrome.Base.MessageLoop

open Library

variable {Closure : Type}

/-- The guarantee of `SequencedTaskRunner` asks for the first task to start before the second. -/
def MustPrecede (posted : List (PendingTask Closure × Int)) (first second : PendingTask Closure) : Prop :=
  ∃ (i j : Nat) (delay laterDelay : Int), i < j ∧ posted[i]? = some (first, delay) ∧
    posted[j]? = some (second, laterDelay) ∧ delay ≤ laterDelay ∧
    (second.nestable = false ∨ first.nestable = true)

/-- No task has started before a task that must precede it. -/
def InOrder (queues : Queues Closure) : Prop :=
  ∀ first second, MustPrecede queues.posted first second → ∀ k : Nat, queues.started[k]? = some second →
    ∃ l : Nat, l < k ∧ queues.started[l]? = some first

/-- `next_sequence_num_++` does not overflow the `int`. -/
def Countable (s : State Closure) : Action Closure → Prop
  | .addToIncomingQueue .. => s.messageLoop = true → s.nextSequenceNum < 2 ^ 31 - 1
  | _ => True

/-- No task is deferred that must precede the one which `DoWork` or `DoDelayedWork` starts. -/
def NotOvertaking (s : State Closure) (action : Action Closure) : Prop :=
  ∀ second, nextTask s action = some second →
    ∀ first ∈ s.deferredNonNestableWorkQueue, ¬MustPrecede s.posted first second

/-- The order in which `DoDelayedWork` takes two tasks. -/
def Sooner (task other : PendingTask Closure) : Prop :=
  task.delayedRunTime < other.delayedRunTime ∨
    task.delayedRunTime = other.delayedRunTime ∧ task.sequenceNum < other.sequenceNum

/-- The posts are numbered in order, and their run times grow with clock and delay. -/
structure Numbered (queues : Queues Closure) : Prop where
  next : queues.nextSequenceNum = queues.posted.length
  bounded : queues.posted.length < 2 ^ 31
  number : ∀ (i : Nat) pending delay, queues.posted[i]? = some (pending, delay) → pending.sequenceNum = i
  clock : 0 ≤ queues.now
  delayed : ∀ pending delay, (pending, delay) ∈ queues.posted → 0 < delay → pending.delayedRunTime ≠ 0
  times : queues.posted.Pairwise fun first second =>
    first.2 ≤ second.2 → first.1.delayedRunTime ≤ second.1.delayedRunTime
  ripe : ∀ pending delay, (pending, delay) ∈ queues.posted → ∀ later laterDelay, queues.now ≤ later →
    delay ≤ laterDelay → pending.delayedRunTime ≤ calculateDelayedRuntime later laterDelay

theorem calculateDelayedRuntime_le {now later delay laterDelay : Int} (clock : 0 ≤ now)
    (passes : now ≤ later) (waits : delay ≤ laterDelay) :
    calculateDelayedRuntime now delay ≤ calculateDelayedRuntime later laterDelay := by
  unfold calculateDelayedRuntime saturatedAdd int64Max
  split_ifs <;> omega

theorem calculateDelayedRuntime_ne_zero {now delay : Int} (clock : 0 ≤ now) (waits : 0 < delay) :
    calculateDelayedRuntime now delay ≠ 0 := by
  unfold calculateDelayedRuntime saturatedAdd int64Max
  split_ifs <;> omega

variable {s : State Closure} {action : Action Closure} {next : Option (PendingTask Closure)}

/-- A post takes the next number, and a run time that no earlier post with a lower delay exceeds. -/
theorem Moved.numbered {queues : Queues Closure} (moved : Moved s action next queues) (countable : Countable s action)
    (numbered : Numbered s.queues) : Numbered queues := by
  obtain ⟨count, bounded, number, clock, delayed, times, ripe⟩ := numbered
  simp only [State.queues] at count bounded number clock delayed times ripe
  cases moved with
  | tick later passes =>
    refine ⟨count, bounded, number, Int.le_trans clock passes, delayed, times, ?_⟩
    intro pending delay accepted later' laterDelay longer
    exact ripe pending delay accepted later' laterDelay (Int.le_trans passes longer)
  | post caller task delay nestable pending alive built =>
    have fits : s.nextSequenceNum < 2 ^ 31 - 1 := countable alive
    refine ⟨?_, ?_, ?_, clock, ?_, ?_, ?_⟩
    · simp only [List.length_append, List.length_singleton, Int.bmod_def, count]
      split <;> omega
    · simp only [List.length_append, List.length_singleton]
      omega
    · intro i other otherDelay found
      rcases getElem?_concat_eq_some found with earlier | ⟨rfl, new⟩
      · exact number i other otherDelay earlier
      · rw [(Prod.mk.inj new).1, built, count]
    · intro other otherDelay accepted positive
      rcases List.mem_append.mp accepted with earlier | new
      · exact delayed other otherDelay earlier positive
      · obtain ⟨rfl, rfl⟩ := Prod.mk.inj (List.mem_singleton.mp new)
        rw [built]
        exact calculateDelayedRuntime_ne_zero clock positive
    · refine List.pairwise_append.mpr ⟨times, List.pairwise_singleton _ _, fun earlier accepted new same => ?_⟩
      rw [List.mem_singleton.mp same, built]
      exact ripe _ _ accepted _ _ (Int.le_refl _)
    · intro other otherDelay accepted later laterDelay passes longer
      rcases List.mem_append.mp accepted with earlier | new
      · exact ripe other otherDelay earlier later laterDelay passes longer
      · obtain ⟨rfl, rfl⟩ := Prod.mk.inj (List.mem_singleton.mp new)
        rw [built]
        exact calculateDelayedRuntime_le clock passes longer
  | still | swap | delay | startWork | deferWork | startDelayed | deferDelayed | startDeferred =>
    exact ⟨count, bounded, number, clock, delayed, times, ripe⟩

theorem MustPrecede.append {posted : List (PendingTask Closure × Int)} {first second : PendingTask Closure}
    (must : MustPrecede posted first second) (later : List (PendingTask Closure × Int)) :
    MustPrecede (posted ++ later) first second := by
  obtain ⟨i, j, delay, laterDelay, before, atFirst, atSecond, rest⟩ := must
  refine ⟨i, j, delay, laterDelay, before, ?_, ?_, rest⟩
  · rw [List.getElem?_append_left (List.getElem?_eq_some_iff.mp atFirst).1, atFirst]
  · rw [List.getElem?_append_left (List.getElem?_eq_some_iff.mp atSecond).1, atSecond]

section Posts

variable {queues : Queues Closure} {first second : PendingTask Closure}

section
variable (numbered : Numbered queues)
include numbered

theorem Numbered.sequenceNum_lt
    (must : MustPrecede queues.posted first second) : first.sequenceNum < second.sequenceNum := by
  obtain ⟨i, j, delay, laterDelay, before, atFirst, atSecond, _⟩ := must
  rw [numbered.number i first delay atFirst, numbered.number j second laterDelay atSecond]
  omega

theorem Numbered.time_le
    (must : MustPrecede queues.posted first second) : first.delayedRunTime ≤ second.delayedRunTime := by
  obtain ⟨i, j, delay, laterDelay, before, atFirst, atSecond, shorter, _⟩ := must
  obtain ⟨inFirst, isFirst⟩ := List.getElem?_eq_some_iff.mp atFirst
  obtain ⟨inSecond, isSecond⟩ := List.getElem?_eq_some_iff.mp atSecond
  have ordered := List.pairwise_iff_getElem.mp numbered.times i j inFirst inSecond before
  rw [isFirst, isSecond] at ordered
  exact ordered shorter

/-- What precedes an immediate task is immediate. -/
theorem Numbered.immediate (kept : Kept queues)
    (must : MustPrecede queues.posted first second) (now : second.delayedRunTime = 0) :
    first.delayedRunTime = 0 := by
  obtain ⟨i, j, delay, laterDelay, before, atFirst, atSecond, shorter, _⟩ := must
  refine kept.immediate first delay (List.mem_of_getElem? atFirst) ?_
  by_contra positive
  exact numbered.delayed second laterDelay (List.mem_of_getElem? atSecond) (by omega) now

theorem Numbered.number_of_mem (kept : Kept queues)
    (member : first ∈ queues.all) : 0 ≤ first.sequenceNum ∧ first.sequenceNum < queues.posted.length := by
  obtain ⟨⟨pending, delay⟩, accepted, same⟩ := List.mem_map.mp (kept.conserved.mem_iff.mp member)
  obtain ⟨i, bound, found⟩ := List.getElem_of_mem accepted
  have number := numbered.number i pending delay (by rw [List.getElem?_eq_getElem bound, found])
  rw [← same, number]
  omega

/-- No new post precedes an old one. -/
theorem Numbered.mustPrecede_of_append {posted later : List (PendingTask Closure × Int)} (grown : queues.posted = posted ++ later)
    (old : second.sequenceNum < posted.length) (must : MustPrecede queues.posted first second) :
    MustPrecede posted first second := by
  obtain ⟨i, j, delay, laterDelay, before, atFirst, atSecond, rest⟩ := must
  have number := numbered.number j second laterDelay atSecond
  rw [grown] at atFirst atSecond
  rw [List.getElem?_append_left (by omega)] at atFirst atSecond
  exact ⟨i, j, delay, laterDelay, before, atFirst, atSecond, rest⟩

end

end Posts

variable {task other : PendingTask Closure}

/-- The comparison of two queued tasks is that of their times and numbers: no number rolls over. -/
theorem less_iff_sooner (bound : task.sequenceNum < 2 ^ 31) (least : 0 ≤ task.sequenceNum)
    (otherBound : other.sequenceNum < 2 ^ 31) (otherLeast : 0 ≤ other.sequenceNum) :
    task.less other = true ↔ Sooner other task := by
  unfold PendingTask.less Sooner
  simp only [Int.bmod_def]
  split_ifs <;> simp <;> omega

theorem Sooner.trans {first second third : PendingTask Closure} (early : Sooner first second)
    (late : Sooner second third) : Sooner first third := by
  unfold Sooner at *
  omega

/-- A pushed task stands behind the tasks that are due sooner. -/
theorem push_sooner {queue : List (PendingTask Closure)} {pending : PendingTask Closure}
    (ordered : queue.Pairwise Sooner)
    (numbers : ∀ task ∈ pending :: queue, 0 ≤ task.sequenceNum ∧ task.sequenceNum < 2 ^ 31)
    (last : ∀ task ∈ queue, task.sequenceNum < pending.sequenceNum) :
    (push pending queue).Pairwise Sooner := by
  induction queue with
  | nil => exact List.pairwise_singleton _ _
  | cons top rest ih =>
    obtain ⟨below, ordered⟩ := List.pairwise_cons.mp ordered
    obtain ⟨least, bound⟩ := numbers pending List.mem_cons_self
    obtain ⟨topLeast, topBound⟩ := numbers top (List.mem_cons_of_mem _ List.mem_cons_self)
    have compare := less_iff_sooner topBound topLeast bound least
    unfold push
    split
    next later =>
      have sooner := compare.mp later
      refine List.pairwise_cons.mpr ⟨fun other member => ?_, List.pairwise_cons.mpr ⟨below, ordered⟩⟩
      rcases List.mem_cons.mp member with rfl | member
      · exact sooner
      · exact sooner.trans (below other member)
    next notLater =>
      have topFirst : Sooner top pending := by
        have notSooner := mt compare.mpr notLater
        have number := last top List.mem_cons_self
        unfold Sooner at *
        omega
      refine List.pairwise_cons.mpr ⟨fun other member => ?_, ih ordered ?_ ?_⟩
      · rcases mem_push.mp member with rfl | member
        · exact topFirst
        · exact below other member
      · intro task member
        refine numbers task ?_
        rcases List.mem_cons.mp member with rfl | member
        · exact List.mem_cons_self
        · exact List.mem_cons_of_mem _ (List.mem_cons_of_mem _ member)
      · exact fun task member => last task (List.mem_cons_of_mem _ member)

/-- The queues hold their tasks in the order in which they let them go. -/
structure Lined (queues : Queues Closure) : Prop where
  waiting : (queues.work ++ queues.incoming).Pairwise fun first second =>
    first.sequenceNum < second.sequenceNum
  taken : ∀ pending other, pending ∈ queues.started ∨ pending ∈ queues.deferred ∨ pending ∈ queues.delayed →
    other ∈ queues.work ∨ other ∈ queues.incoming → pending.sequenceNum < other.sequenceNum
  delayed : queues.delayed.Pairwise Sooner
  deferred : queues.deferred.Pairwise fun first second => ¬MustPrecede queues.posted second first
  behind : ∀ first ∈ queues.delayed, ∀ second ∈ queues.deferred, ¬MustPrecede queues.posted first second

/-- What all moves up to `Lined` rely on. -/
structure Ordered (queues : Queues Closure) : Prop where
  kept : Kept queues
  numbered : Numbered queues
  lined : Lined queues

theorem Numbered.not_mustPrecede_self {queues : Queues Closure} (numbered : Numbered queues)
    : ¬MustPrecede queues.posted task task :=
  fun must => (Int.lt_irrefl _) (numbered.sequenceNum_lt must)

theorem Ordered.taken_lt {queues : Queues Closure} (ordered : Ordered queues) {pending : PendingTask Closure}
    (member : pending ∈ queues.started ∨ pending ∈ queues.deferred ∨ pending ∈ queues.delayed)
    (waits : other ∈ queues.work ∨ other ∈ queues.incoming) : ¬MustPrecede queues.posted other pending := by
  intro must
  have before := ordered.numbered.sequenceNum_lt must
  have after := ordered.lined.taken pending other member waits
  omega

theorem Ordered.top_first {queues : Queues Closure} (ordered : Ordered queues) {top : PendingTask Closure}
    {rest : List (PendingTask Closure)} (front : queues.delayed = top :: rest) (member : other ∈ rest) :
    ¬MustPrecede queues.posted other top := by
  intro must
  have number := ordered.numbered.sequenceNum_lt must
  have time := ordered.numbered.time_le must
  have sooner := ordered.lined.delayed
  rw [front] at sooner
  have topSooner := (List.pairwise_cons.mp sooner).1 other member
  unfold Sooner at topSooner
  omega

theorem Ordered.front_first {queues : Queues Closure} (ordered : Ordered queues) {front : PendingTask Closure}
    {rest : List (PendingTask Closure)} (isFront : queues.work = front :: rest)
    (waits : other ∈ queues.work ∨ other ∈ queues.incoming) : ¬MustPrecede queues.posted other front := by
  intro must
  have number := ordered.numbered.sequenceNum_lt must
  have line := ordered.lined.waiting
  rw [isFront, List.cons_append] at line
  rw [isFront, List.mem_cons] at waits
  by_cases same : other = front
  · rw [same] at number
    omega
  · have behind := (List.pairwise_cons.mp line).1 other (List.mem_append.mpr (by tauto))
    omega

theorem Ordered.delayed_not_first {queues : Queues Closure} (ordered : Ordered queues)
    {first second : PendingTask Closure} (member : first ∈ queues.delayed) (now : second.delayedRunTime = 0) :
    ¬MustPrecede queues.posted first second := fun must =>
  ordered.kept.delayed first member (ordered.numbered.immediate ordered.kept must now)

theorem Moved.lined {queues : Queues Closure} (moved : Moved s action next queues) (ordered : Ordered s.queues)
    (numbered : Numbered queues) : Lined queues := by
  have ⟨waiting, taken, delayed, deferred, behind⟩ := ordered.lined
  simp only [State.queues] at waiting taken delayed deferred behind
  have number := fun (task : PendingTask Closure) (member : task ∈ s.queues.all) =>
    ordered.numbered.number_of_mem ordered.kept member
  simp only [Queues.all, State.queues, List.mem_append] at number
  cases moved with
  | still => exact ordered.lined
  | tick => exact ⟨waiting, taken, delayed, deferred, behind⟩
  | post caller task delay nestable pending alive built =>
    have last : pending.sequenceNum = s.posted.length := by
      rw [built]
      exact ordered.numbered.next
    refine ⟨?_, ?_, delayed, ?_, ?_⟩
    · simp only [State.queues, ← List.append_assoc]
      refine List.pairwise_append.mpr ⟨waiting, List.pairwise_singleton _ _, fun other member new same => ?_⟩
      rw [List.mem_singleton.mp same, last]
      exact (number other (by rcases List.mem_append.mp member with h | h <;> simp [h])).2
    · intro other waits member place
      rcases place with work | incoming
      · exact taken other waits member (.inl work)
      · rcases List.mem_append.mp incoming with earlier | new
        · exact taken other waits member (.inr earlier)
        · rw [List.mem_singleton.mp new, last]
          simp only [State.queues] at member
          exact (number other (by tauto)).2
    · refine deferred.imp_of_mem fun {first second} isFirst _ notFirst must => notFirst ?_
      exact numbered.mustPrecede_of_append rfl (number first (.inr (.inl isFirst))).2 must
    · intro first isDelayed second isDeferred must
      exact behind first isDelayed second isDeferred
        (numbered.mustPrecede_of_append rfl (number second (.inr (.inl isDeferred))).2 must)
  | swap empty =>
    simp only [empty, List.nil_append, List.not_mem_nil, false_or] at waiting taken
    refine ⟨by simpa using waiting, fun pending other member place => ?_, delayed, deferred, behind⟩
    exact taken pending other member (place.resolve_right (List.not_mem_nil))
  | delay pending rest front late =>
    have first : pending ∈ s.workQueue := front ▸ List.mem_cons_self
    simp only [front, List.mem_cons, List.cons_append, List.pairwise_cons, List.mem_append] at waiting taken number
    refine ⟨waiting.2, ?_, ?_, deferred, ?_⟩
    · intro other waits member place
      rw [mem_push] at member
      by_cases same : other = pending
      · exact same ▸ waiting.1 waits place
      · exact taken other waits (by tauto) (by tauto)
    · refine push_sooner delayed (fun other member => ?_) fun other member => ?_
      · have bound := number other (by rcases List.mem_cons.mp member with h | h <;> tauto)
        have bounded := ordered.numbered.bounded
        simp only [State.queues] at bounded bound
        omega
      · exact taken other pending (.inr (.inr member)) (.inl (.inl rfl))
    · intro first isDelayed second isDeferred
      rcases mem_push.mp isDelayed with rfl | isDelayed
      · exact ordered.taken_lt (.inr (.inl isDeferred)) (.inl first)
      · exact behind first isDelayed second isDeferred
  | startWork pending rest front now =>
    simp only [front, List.mem_cons, List.cons_append, List.pairwise_cons, List.mem_append] at waiting taken
    refine ⟨waiting.2, ?_, delayed, deferred, behind⟩
    intro other waits member place
    rw [List.mem_append, List.mem_singleton] at member
    by_cases same : other = pending
    · exact same ▸ waiting.1 waits place
    · exact taken other waits (by tauto) (by tauto)
  | deferWork pending rest front now waits =>
    have first : pending ∈ s.workQueue := front ▸ List.mem_cons_self
    simp only [front, List.mem_cons, List.cons_append, List.pairwise_cons, List.mem_append] at waiting taken
    refine ⟨waiting.2, ?_, delayed, ?_, ?_⟩
    · intro other waits member place
      rw [List.mem_append, List.mem_singleton] at member
      by_cases same : other = pending
      · exact same ▸ waiting.1 waits place
      · exact taken other waits (by tauto) (by tauto)
    · refine List.pairwise_append.mpr ⟨deferred, List.pairwise_singleton _ _, fun other member new same => ?_⟩
      rw [List.mem_singleton.mp same]
      exact ordered.taken_lt (.inr (.inl member)) (.inl first)
    · intro other isDelayed second isDeferred
      rcases List.mem_append.mp isDeferred with isDeferred | new
      · exact behind other isDelayed second isDeferred
      · rw [List.mem_singleton.mp new]
        exact ordered.delayed_not_first isDelayed now
  | startDelayed pending rest front =>
    have first : pending ∈ s.delayedWorkQueue := front ▸ List.mem_cons_self
    have top : ∀ other ∈ rest, other ∈ s.delayedWorkQueue := fun other member =>
      front ▸ List.mem_cons_of_mem _ member
    refine ⟨waiting, ?_, (List.pairwise_cons.mp (front ▸ delayed)).2, deferred,
      fun first isDelayed => behind first (top first isDelayed)⟩
    intro other waits member place
    rw [List.mem_append, List.mem_singleton] at member
    by_cases same : other = pending
    · exact same ▸ taken pending waits (.inr (.inr first)) place
    · exact taken other waits (by have := top other; tauto) place
  | deferDelayed pending rest front waits =>
    have first : pending ∈ s.delayedWorkQueue := front ▸ List.mem_cons_self
    have top : ∀ other ∈ rest, other ∈ s.delayedWorkQueue := fun other member =>
      front ▸ List.mem_cons_of_mem _ member
    refine ⟨waiting, ?_, (List.pairwise_cons.mp (front ▸ delayed)).2, ?_, ?_⟩
    · intro other waits member place
      rw [List.mem_append, List.mem_singleton] at member
      by_cases same : other = pending
      · exact same ▸ taken pending waits (.inr (.inr first)) place
      · exact taken other waits (by have := top other; tauto) place
    · refine List.pairwise_append.mpr ⟨deferred, List.pairwise_singleton _ _, fun other member new same => ?_⟩
      rw [List.mem_singleton.mp same]
      exact behind pending first other member
    · intro other isDelayed second isDeferred
      rcases List.mem_append.mp isDeferred with isDeferred | new
      · exact behind other (top other isDelayed) second isDeferred
      · rw [List.mem_singleton.mp new]
        exact ordered.top_first front isDelayed
  | startDeferred pending rest front =>
    have first : pending ∈ s.deferredNonNestableWorkQueue := front ▸ List.mem_cons_self
    have later : ∀ other ∈ rest, other ∈ s.deferredNonNestableWorkQueue := fun other member =>
      front ▸ List.mem_cons_of_mem _ member
    refine ⟨waiting, ?_, delayed, (List.pairwise_cons.mp (front ▸ deferred)).2,
      fun other isDelayed second isDeferred => behind other isDelayed second (later second isDeferred)⟩
    intro other waits member place
    rw [List.mem_append, List.mem_singleton] at member
    by_cases same : other = pending
    · exact same ▸ taken pending waits (.inr (.inl first)) place
    · exact taken other waits (by have := later other; tauto) place

theorem Moved.ordered {queues : Queues Closure} (moved : Moved s action next queues) (countable : Countable s action)
    (ordered : Ordered s.queues) : Ordered queues :=
  have numbered := moved.numbered countable ordered.numbered
  ⟨moved.kept ordered.kept, numbered, moved.lined ordered numbered⟩

/-- A task to be started that is preceded by no task in a queue keeps the starts in order. -/
theorem inOrder_start {queues : Queues Closure} {second : PendingTask Closure} (ordered : Ordered queues)
    (inOrder : InOrder queues)
    (free : ∀ first, first ∈ queues.deferred ∨ first ∈ queues.delayed ∨ first ∈ queues.work ∨
      first ∈ queues.incoming → ¬MustPrecede queues.posted first second)
    {next : Queues Closure} (posted : next.posted = queues.posted)
    (started : next.started = queues.started ++ [second]) : InOrder next := by
  intro first second' must k starts
  rw [posted] at must
  rw [started] at starts ⊢
  rcases getElem?_concat_eq_some starts with earlier | ⟨rfl, rfl⟩
  · obtain ⟨l, before, found⟩ := inOrder first second' must k earlier
    refine ⟨l, before, ?_⟩
    rw [List.getElem?_append_left (List.getElem?_eq_some_iff.mp found).1, found]
  · obtain ⟨i, j, delay, laterDelay, _, atFirst, _⟩ := id must
    have place := ordered.kept.placed (List.mem_of_getElem? atFirst)
    rcases place with begun | waits
    · obtain ⟨l, inside, found⟩ := List.getElem_of_mem begun
      refine ⟨l, inside, ?_⟩
      rw [List.getElem?_append_left inside, List.getElem?_eq_getElem inside, found]
    · exact (free first waits must).elim

/-- Starts that are in order stay so, backwards in time. -/
theorem inOrder_of_grown {queues next : Queues Closure} (inOrder : InOrder next)
    {posts : List (PendingTask Closure × Int)} (posted : next.posted = queues.posted ++ posts)
    {starts : List (PendingTask Closure)} (started : next.started = queues.started ++ starts) :
    InOrder queues := by
  intro first second must k found
  have inside := (List.getElem?_eq_some_iff.mp found).1
  have later := inOrder first second (posted ▸ must.append posts) k
    (by rw [started, List.getElem?_append_left inside, found])
  obtain ⟨l, before, found⟩ := later
  refine ⟨l, before, ?_⟩
  rw [started, List.getElem?_append_left (by omega)] at found
  exact found

theorem Numbered.nodup {queues : Queues Closure} (numbered : Numbered queues) :
    (queues.posted.map (·.1)).Nodup := by
  refine List.pairwise_iff_getElem.mpr fun i j inFirst inSecond before same => ?_
  simp only [List.length_map] at inFirst inSecond
  simp only [List.getElem_map] at same
  have atFirst : queues.posted[i].1.sequenceNum = i := numbered.number i _ _ (List.getElem?_eq_getElem inFirst)
  have atSecond : queues.posted[j].1.sequenceNum = j := numbered.number j _ _ (List.getElem?_eq_getElem inSecond)
  rw [same] at atFirst
  omega

theorem Ordered.not_started {queues : Queues Closure} (ordered : Ordered queues) (deferred : task ∈ queues.deferred) :
    task ∉ queues.started := by
  have nodup := ordered.kept.conserved.nodup_iff.mpr ordered.numbered.nodup
  intro started
  exact (List.nodup_append.mp nodup).2.2 task started task (List.mem_append_left _ deferred) rfl

theorem Ordered.overtaken {queues next : Queues Closure} (ordered : Ordered queues)
    {second : PendingTask Closure} (inOrder : InOrder next) (posted : next.posted = queues.posted)
    (started : next.started = queues.started ++ [second]) {first : PendingTask Closure}
    (deferred : first ∈ queues.deferred) : ¬MustPrecede queues.posted first second := by
  intro must
  obtain ⟨l, before, found⟩ := inOrder first second (posted ▸ must) queues.started.length
    (by rw [started, List.getElem?_concat_length])
  rw [started, List.getElem?_append_left before] at found
  exact ordered.not_started deferred (List.mem_of_getElem? found)

theorem Moved.inOrder_iff {queues : Queues Closure} (moved : Moved s action next queues)
    (countable : Countable s action) (ordered : Ordered s.queues) :
    InOrder queues ↔ InOrder s.queues ∧ ∀ second, next = some second →
      ∀ first ∈ s.deferredNonNestableWorkQueue, ¬MustPrecede s.posted first second := by
  have numbered := moved.numbered countable ordered.numbered
  cases moved with
  | still | tick | swap | delay | deferWork | deferDelayed =>
    exact ⟨fun inOrder => ⟨inOrder, nofun⟩, fun both => both.1⟩
  | post caller task delay nestable pending alive built =>
    refine ⟨fun inOrder => ⟨?_, nofun⟩, fun both first second must k starts => ?_⟩
    · exact inOrder_of_grown inOrder rfl (List.append_nil _).symm
    · have member : second ∈ s.queues.all := List.mem_append_left _ (List.mem_of_getElem? starts)
      have old := (ordered.numbered.number_of_mem ordered.kept member).2
      exact both.1 first second (numbered.mustPrecede_of_append rfl old must) k starts
  | startWork pending rest front now =>
    refine ⟨fun inOrder => ⟨inOrder_of_grown inOrder (List.append_nil _).symm rfl, ?_⟩, fun ⟨inOrder, free⟩ => ?_⟩
    · intro second same first deferred
      cases same
      exact ordered.overtaken inOrder rfl rfl deferred
    · refine inOrder_start ordered inOrder (fun first place => ?_) rfl rfl
      rcases place with deferred | delayed | waits
      · exact free pending rfl first deferred
      · exact ordered.delayed_not_first delayed now
      · exact ordered.front_first front waits
  | startDelayed pending rest front =>
    refine ⟨fun inOrder => ⟨inOrder_of_grown inOrder (List.append_nil _).symm rfl, ?_⟩, fun ⟨inOrder, free⟩ => ?_⟩
    · intro second same first deferred
      cases same
      exact ordered.overtaken inOrder rfl rfl deferred
    · refine inOrder_start ordered inOrder (fun first place => ?_) rfl rfl
      have top : s.queues.delayed = pending :: rest := front
      have member : pending ∈ s.queues.delayed := top ▸ List.mem_cons_self
      rcases place with deferred | delayed | waits
      · exact free pending rfl first deferred
      · rw [top] at delayed
        rcases List.mem_cons.mp delayed with rfl | later
        · exact ordered.numbered.not_mustPrecede_self
        · exact ordered.top_first front later
      · exact ordered.taken_lt (.inr (.inr member)) waits
  | startDeferred pending rest front =>
    refine ⟨fun inOrder => ⟨inOrder_of_grown inOrder (List.append_nil _).symm rfl, nofun⟩, fun ⟨inOrder, _⟩ => ?_⟩
    refine inOrder_start ordered inOrder (fun first place => ?_) rfl rfl
    have line : s.queues.deferred = pending :: rest := front
    have member : pending ∈ s.queues.deferred := line ▸ List.mem_cons_self
    rcases place with deferred | delayed | waits
    · rw [line] at deferred
      rcases List.mem_cons.mp deferred with rfl | later
      · exact ordered.numbered.not_mustPrecede_self
      · have behind := ordered.lined.deferred
        rw [line] at behind
        exact (List.pairwise_cons.mp behind).1 first later
    · exact ordered.lined.behind first delayed pending member
    · exact ordered.taken_lt (.inr (.inl member)) waits

theorem ordered_initial (always : Bool) : Ordered (initial always : State Closure).queues where
  kept := kept_initial always
  numbered := ⟨rfl, Nat.two_pow_pos 31, nofun, Int.le_refl _, nofun, .nil, nofun⟩
  lined := ⟨.nil, nofun, .nil, .nil, nofun⟩

instance (s : State Closure) (action : Action Closure) : Decidable (Countable s action) :=
  match action with
  | .addToIncomingQueue .. => inferInstanceAs (Decidable (_ → _))
  | .tick _ | .continueScheduling | .startScheduling | .advance | .finishTask | .run _
  | .quit _ | .quitNow | .quitWhenIdle | .setNestableTasksAllowed _ | .willDestroyCurrentMessageLoop =>
    .isTrue trivial

/-- The tasks of a run start in the guaranteed order exactly when no step of it lets `DoWork` or
`DoDelayedWork` start a task while one that must precede it is deferred. -/
theorem inOrder_iff_notOvertaking [DecidableEq Closure] (always : Bool) (actions : List (Action Closure))
    (s : State Closure) (ran : runFrom step Countable (initial always) actions = some s) :
    InOrder s.queues ↔ Meets step NotOvertaking (initial always) actions := by
  have whole := run_keeps_iff (fun s : State Closure => InOrder s.queues) (fun s => Ordered s.queues)
    (fun before action after ordered countable moved => (step_moved moved).ordered countable ordered)
    (fun before action after ordered countable moved => (step_moved moved).inOrder_iff countable ordered)
    (ordered_initial always) ran
  exact whole.trans (and_iff_right nofun)

/-- A nestable task runs a nested loop until idle, which defers a non-nestable task; the next one is
posted before the outermost loop goes on. -/
def overtakingRun : List (Action Nat) :=
  [.startScheduling, .addToIncomingQueue .other 0 0 true, .continueScheduling, .continueScheduling,
    .addToIncomingQueue .other 1 0 false, .run false, .advance, .advance, .advance,
    .setNestableTasksAllowed true, .run true] ++ List.replicate 7 .advance ++
    [.addToIncomingQueue .loop 2 0 false, .continueScheduling, .continueScheduling, .finishTask] ++
    List.replicate 5 .advance

theorem overtakingRun_not_inOrder {s : State Nat}
    (ran : runFrom step Countable (initial false) overtakingRun = some s) : ¬InOrder s.queues := by
  cases ran
  intro inOrder
  obtain ⟨l, before, found⟩ := inOrder ⟨1, 0, 1, false⟩ ⟨2, 0, 2, false⟩
    ⟨1, 2, 0, 0, by decide, rfl, rfl, by decide, .inl rfl⟩ 1 rfl
  have only : l = 0 := by omega
  subst only
  exact absurd found (by decide)

theorem inOrder_iff_notOvertaking_overtaking :
    ¬Meets step NotOvertaking (initial false : State Nat) overtakingRun := by
  obtain ⟨s, ran⟩ : ∃ s, runFrom step Countable (initial false) overtakingRun = some s := ⟨_, rfl⟩
  exact fun met => overtakingRun_not_inOrder ran
    ((inOrder_iff_notOvertaking false overtakingRun s ran).mpr met)

theorem not_inOrder_nested : ¬∀ (actions : List (Action Nat)) (s : State Nat),
    runFrom step Countable (initial false) actions = some s → InOrder s.queues := by
  obtain ⟨s, ran⟩ : ∃ s, runFrom step Countable (initial false) overtakingRun = some s := ⟨_, rfl⟩
  exact fun always => overtakingRun_not_inOrder ran (always overtakingRun s ran)

end Libchrome.Base.MessageLoop
