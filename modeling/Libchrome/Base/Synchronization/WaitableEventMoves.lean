import Libchrome.Base.Synchronization.WaitableEvent

/-!
# What the log of a run has to say

The log is read from its last entry back. `Lawful` is the contract of the events, entry by entry: a grant needs a
`Signal` that no `Reset` took back and, for an auto-reset event, that no other wait has had; a wait returns what it
was granted; a `Signal` of a manual-reset event ends with every wait it found in the queue released.
-/

namespace Libchrome.Base.Synchronization

variable {Event Thread : Type} [LinearOrder Event] [DecidableEq Thread]

/-- The events that have granted the thread's wait since it began. -/
def grants (thread : Thread) : List (Entry Event Thread) → List Event
  | [] => []
  | entry :: older =>
    match entry with
    | .waiting other => if other = thread then [] else grants thread older
    | .granted event other => if other = thread then event :: grants thread older else grants thread older
    | _ => grants thread older

/-- The thread's wait has been granted or has timed out. -/
def released (thread : Thread) : List (Entry Event Thread) → Bool
  | [] => false
  | entry :: older =>
    match entry with
    | .waiting other => if other = thread then false else released thread older
    | .granted _ other => if other = thread then true else released thread older
    | .timedOut other => if other = thread then true else released thread older
    | _ => released thread older

/-- How many waits the event has granted since its last `Signal`. -/
def taken (event : Event) : List (Entry Event Thread) → Nat
  | [] => 0
  | entry :: older =>
    match entry with
    | .signal other _ => if other = event then 0 else taken event older
    | .granted other _ => if other = event then taken event older + 1 else taken event older
    | _ => taken event older

/-- The event was signalled, by a `Signal` or from the start, and no `Reset` came after. -/
def standing (initiallySignaled : Event → Bool) (event : Event) : List (Entry Event Thread) → Bool
  | [] => initiallySignaled event
  | entry :: older =>
    match entry with
    | .signal other _ => if other = event then true else standing initiallySignaled event older
    | .reset other => if other = event then false else standing initiallySignaled event older
    | _ => standing initiallySignaled event older

/-- The queue that the last `Signal` of the event found. -/
def queuedAt (event : Event) : List (Entry Event Thread) → List Thread
  | [] => []
  | entry :: older =>
    match entry with
    | .signal other queued => if other = event then queued else queuedAt event older
    | _ => queuedAt event older

/-- What an entry requires of those before it. -/
def Entry.Allowed (manualReset initiallySignaled : Event → Bool) (older : List (Entry Event Thread)) :
    Entry Event Thread → Prop
  | .granted event thread =>
    standing initiallySignaled event older = true ∧ (manualReset event = false → taken event older = 0) ∧
      grants thread older = []
  | .returned thread result =>
    grants thread older = result.event.toList ∧ ∀ raw index, result = .waitMany raw index → index < raw.length
  | .raised event => manualReset event = true → ∀ thread ∈ queuedAt event older, released thread older = true
  | _ => True

def Lawful (manualReset initiallySignaled : Event → Bool) : List (Entry Event Thread) → Prop
  | [] => True
  | entry :: older => entry.Allowed manualReset initiallySignaled older ∧ Lawful manualReset initiallySignaled older

variable {manualReset initiallySignaled : Event → Bool}

theorem Lawful.allowed {newer older : List (Entry Event Thread)} {entry : Entry Event Thread}
    (lawful : Lawful manualReset initiallySignaled (newer ++ entry :: older)) :
    entry.Allowed manualReset initiallySignaled older := by
  induction newer with
  | nil => exact lawful.1
  | cons _ _ ih => exact ih lawful.2

theorem Lawful.older {newer older : List (Entry Event Thread)}
    (lawful : Lawful manualReset initiallySignaled (newer ++ older)) :
    Lawful manualReset initiallySignaled older := by
  induction newer with
  | nil => exact lawful
  | cons _ _ ih => exact ih lawful.2

/-- In a lawful log no `Signal` of an auto-reset event serves two waits. -/
theorem Lawful.taken_le_one {log : List (Entry Event Thread)} (lawful : Lawful manualReset initiallySignaled log)
    {event : Event} (auto : manualReset event = false) : taken event log ≤ 1 := by
  induction log with
  | nil => exact Nat.zero_le 1
  | cons entry older ih =>
    have before := ih lawful.2
    cases entry with
    | granted other thread =>
      simp only [taken]
      split
      next same => exact (same ▸ lawful.1.2.1 (same ▸ auto)) ▸ Nat.le_refl 1
      next => exact before
    | signal other queued =>
      simp only [taken]
      split
      next => exact Nat.zero_le 1
      next => exact before
    | _ => exact before

/-!
## The moves of a thread

`Move` lists what a step can do, with what the code has found out by then; steps that do the same are one move.
-/

namespace State
variable {Event Thread : Type} (s : State Event Thread)

section Kernels
variable [LinearOrder Event]

@[simp] theorem setKernel_kernel (event other : Event) (kernel : Kernel Thread) :
    (s.setKernel event kernel).kernel other = if other = event then kernel else s.kernel other :=
  Function.update_apply s.kernel event kernel other

@[simp] theorem setKernel_thread (event : Event) (kernel : Kernel Thread) :
    (s.setKernel event kernel).thread = s.thread := rfl

@[simp] theorem setKernel_log (event : Event) (kernel : Kernel Thread) : (s.setKernel event kernel).log = s.log := rfl

@[simp] theorem release_kernel (held : List Event) (queue : List Thread) (event : Event) :
    (s.release held queue).kernel event =
      if event ∈ held then { s.kernel event with owner := none, waiters := (s.kernel event).waiters ++ queue }
      else s.kernel event := rfl

@[simp] theorem release_thread (held : List Event) (queue : List Thread) :
    (s.release held queue).thread = s.thread := rfl

@[simp] theorem release_log (held : List Event) (queue : List Thread) : (s.release held queue).log = s.log := rfl

end Kernels

section Threads
variable [DecidableEq Thread]

@[simp] theorem setThread_thread (thread other : Thread) (now : Local Event Thread) :
    (s.setThread thread now).thread other = if other = thread then now else s.thread other :=
  Function.update_apply s.thread thread now other

@[simp] theorem setThread_kernel (thread : Thread) (now : Local Event Thread) :
    (s.setThread thread now).kernel = s.kernel := rfl

@[simp] theorem setThread_log (thread : Thread) (now : Local Event Thread) : (s.setThread thread now).log = s.log := rfl

@[simp] theorem setPc_thread (thread other : Thread) (pc : Pc Event Thread) :
    (s.setPc thread pc).thread other = if other = thread then { s.thread thread with pc } else s.thread other :=
  Function.update_apply s.thread thread _ other

@[simp] theorem setPc_kernel (thread : Thread) (pc : Pc Event Thread) : (s.setPc thread pc).kernel = s.kernel := rfl

@[simp] theorem setPc_log (thread : Thread) (pc : Pc Event Thread) : (s.setPc thread pc).log = s.log := rfl

@[simp] theorem setWaiter_thread (thread other : Thread) (waiter : SyncWaiter Event) :
    (s.setWaiter thread waiter).thread other =
      if other = thread then { s.thread thread with waiter } else s.thread other :=
  Function.update_apply s.thread thread _ other

@[simp] theorem setWaiter_kernel (thread : Thread) (waiter : SyncWaiter Event) :
    (s.setWaiter thread waiter).kernel = s.kernel := rfl

@[simp] theorem setWaiter_log (thread : Thread) (waiter : SyncWaiter Event) :
    (s.setWaiter thread waiter).log = s.log := rfl

end Threads

@[simp] theorem record_kernel (entries : List (Entry Event Thread)) : (s.record entries).kernel = s.kernel := rfl

@[simp] theorem record_thread (entries : List (Entry Event Thread)) : (s.record entries).thread = s.thread := rfl

@[simp] theorem record_log (entries : List (Entry Event Thread)) : (s.record entries).log = entries ++ s.log := rfl

variable {s} in
theorem mayLock_cases {thread : Thread} {event : Event} (may : s.mayLock thread event = true) :
    (s.thread thread).pc = .idle ∧ (s.kernel event).owner = none := by
  unfold State.mayLock at may
  split at may
  next idle => exact ⟨idle, Option.isNone_iff_eq_none.mp may⟩
  next => cases may

attribute [simp] raise finish take dequeue

end State

variable {Event Thread : Type} [LinearOrder Event] [DecidableEq Thread]

/-- What a step can do. `found` is `IsSignaled` or `TimedWait` at a signalled event, `sleep` a turn of a waiting loop
that found nothing, `skip` a `Fire` that is refused. -/
inductive Move (s : State Event Thread) (thread : Thread) : State Event Thread → Prop
  | merged (event : Event) (idle : (s.thread thread).pc = .idle) (free : (s.kernel event).owner = none)
    (signaled : (s.kernel event).signaled = true) :
    Move s thread (s.record [.raised event, .signal event (s.kernel event).waiters])
  | signalOne (event : Event) (idle : (s.thread thread).pc = .idle) (free : (s.kernel event).owner = none)
    (quiet : (s.kernel event).signaled = false) (auto : (s.kernel event).manualReset = false) :
    Move s thread (((s.setKernel event { s.kernel event with owner := some thread }).setPc thread
      (.signalOne event)).record [.signal event (s.kernel event).waiters])
  | signalAll (event : Event) (idle : (s.thread thread).pc = .idle) (free : (s.kernel event).owner = none)
    (quiet : (s.kernel event).signaled = false) (manual : (s.kernel event).manualReset = true) :
    Move s thread (((s.setKernel event { s.kernel event with owner := some thread }).setPc thread
      (.signalAll event (s.kernel event).waiters (s.kernel event).waiters)).record
      [.signal event (s.kernel event).waiters])
  | reset (event : Event) (idle : (s.thread thread).pc = .idle) (free : (s.kernel event).owner = none) :
    Move s thread ((s.setKernel event { s.kernel event with signaled := false }).record [.reset event])
  | found (event : Event) (result : Result Event) (idle : (s.thread thread).pc = .idle)
    (free : (s.kernel event).owner = none) (signaled : (s.kernel event).signaled = true)
    (result_event : result.event = some event) (single : ∀ raw index, result ≠ .waitMany raw index) :
    Move s thread ((s.take event).record [.returned thread result, .granted event thread, .waiting thread])
  | notSignaled (event : Event) (idle : (s.thread thread).pc = .idle) :
    Move s thread (s.record [.returned thread (.isSignaled event false), .waiting thread])
  | timedWait (event : Event) (finiteTime : Bool) (idle : (s.thread thread).pc = .idle)
    (free : (s.kernel event).owner = none) (quiet : (s.kernel event).signaled = false) :
    Move s thread (((s.setKernel event
      { s.kernel event with waiters := (s.kernel event).waiters ++ [thread] }).setThread thread
      ⟨.timedWait event finiteTime, { locked := true }⟩).record [.waiting thread])
  | waitMany (raw : List Event) (idle : (s.thread thread).pc = .idle) :
    Move s thread ((s.setThread thread
      ⟨.enqueueMany raw (State.waitables raw) (State.waitables raw) [], {}⟩).record [.waiting thread])
  | raiseOne (event : Event) (signaling : (s.thread thread).pc = .signalOne event)
    (empty : (s.kernel event).waiters = []) : Move s thread (s.raise thread event)
  | raiseAll (event : Event) (queued : List Thread) (signaling : (s.thread thread).pc = .signalAll event queued []) :
    Move s thread (s.raise thread event)
  | skipOne (event : Event) (first : Thread) (rest : List Thread)
    (signaling : (s.thread thread).pc = .signalOne event) (queue : (s.kernel event).waiters = first :: rest)
    (fired : (s.thread first).waiter.fired = true) :
    Move s thread (s.setKernel event { s.kernel event with waiters := rest })
  | fireOne (event : Event) (first : Thread) (rest : List Thread)
    (signaling : (s.thread thread).pc = .signalOne event) (queue : (s.kernel event).waiters = first :: rest)
    (ready : (s.thread first).waiter.fired = false) :
    Move s thread (((s.setWaiter first ((s.thread first).waiter.fire event)).setKernel event
      { s.kernel event with waiters := rest, owner := none }).finish thread [.granted event first])
  | skipAll (event : Event) (first : Thread) (queued rest : List Thread)
    (signaling : (s.thread thread).pc = .signalAll event queued (first :: rest))
    (fired : (s.thread first).waiter.fired = true) : Move s thread (s.setPc thread (.signalAll event queued rest))
  | fireAll (event : Event) (first : Thread) (queued rest : List Thread)
    (signaling : (s.thread thread).pc = .signalAll event queued (first :: rest))
    (ready : (s.thread first).waiter.fired = false) :
    Move s thread (((s.setWaiter first ((s.thread first).waiter.fire event)).setPc thread
      (.signalAll event queued rest)).record [.granted event first])
  | sleep : Move s thread (s.setWaiter thread (s.thread thread).waiter.unlock)
  | awake (event : Event) (finiteTime : Bool) (waiting : (s.thread thread).pc = .timedWait event finiteTime)
    (fired : (s.thread thread).waiter.fired = true) :
    Move s thread (s.setThread thread ⟨.disabled event true, (s.thread thread).waiter.disable⟩)
  | expire (event : Event) (finiteTime : Bool) (waiting : (s.thread thread).pc = .timedWait event finiteTime)
    (ready : (s.thread thread).waiter.fired = false) :
    Move s thread ((s.setThread thread ⟨.disabled event false, (s.thread thread).waiter.disable⟩).record
      [.timedOut thread])
  | leave (event : Event) (returnValue : Bool) (disabled : (s.thread thread).pc = .disabled event returnValue)
    (free : (s.kernel event).owner = none) :
    Move s thread ((s.dequeue event thread).finish thread [.returned thread (.timedWait event returnValue)])
  | enqueued (raw : List Event) (waitables : List (Event × Nat)) (held : List Event)
    (enqueuing : (s.thread thread).pc = .enqueueMany raw waitables [] held) :
    Move s thread ((s.release held [thread]).setThread thread ⟨.waitMany raw, { locked := true }⟩)
  | foundMany (raw : List Event) (waitables : List (Event × Nat)) (event : Event) (index : Nat)
    (rest : List (Event × Nat)) (held : List Event)
    (enqueuing : (s.thread thread).pc = .enqueueMany raw waitables ((event, index) :: rest) held)
    (free : (s.kernel event).owner = none) (signaled : (s.kernel event).signaled = true) :
    Move s thread (((s.take event).release held []).finish thread
      [.returned thread (.waitMany raw
        ((waitables[waitables.length - ((event, index) :: rest).length]?.map Prod.snd).getD 0)),
        .granted event thread])
  | lock (raw : List Event) (waitables : List (Event × Nat)) (event : Event) (index : Nat)
    (rest : List (Event × Nat)) (held : List Event)
    (enqueuing : (s.thread thread).pc = .enqueueMany raw waitables ((event, index) :: rest) held)
    (free : (s.kernel event).owner = none) (quiet : (s.kernel event).signaled = false) :
    Move s thread ((s.setKernel event { s.kernel event with owner := some thread }).setPc thread
      (.enqueueMany raw waitables rest (event :: held)))
  | awakeMany (raw : List Event) (waiting : (s.thread thread).pc = .waitMany raw)
    (fired : (s.thread thread).waiter.fired = true) :
    Move s thread (s.setThread thread
      ⟨.dequeueMany raw (s.thread thread).waiter.signalingEvent 0 0, (s.thread thread).waiter.unlock⟩)
  | leaveMany (raw : List Event) (signaledEvent : Option Event) (i signaledIndex : Nat)
    (dequeuing : (s.thread thread).pc = .dequeueMany raw signaledEvent i signaledIndex) (past : raw[i]? = none) :
    Move s thread (s.finish thread [.returned thread (.waitMany raw signaledIndex)])
  | passSignaled (raw : List Event) (event : Event) (i signaledIndex : Nat)
    (dequeuing : (s.thread thread).pc = .dequeueMany raw (some event) i signaledIndex) (here : raw[i]? = some event)
    (free : (s.kernel event).owner = none) :
    Move s thread (s.setPc thread (.dequeueMany raw (some event) (i + 1) i))
  | dequeue (raw : List Event) (signaledEvent : Option Event) (event : Event) (i signaledIndex : Nat)
    (dequeuing : (s.thread thread).pc = .dequeueMany raw signaledEvent i signaledIndex) (here : raw[i]? = some event)
    (other : signaledEvent ≠ some event) (free : (s.kernel event).owner = none) :
    Move s thread ((s.dequeue event thread).setPc thread (.dequeueMany raw signaledEvent (i + 1) signaledIndex))

variable {s t : State Event Thread} {thread : Thread}

variable {event : Event}

theorem signal_move (may : s.mayLock thread event = true) : Move s thread (s.signal thread event) := by
  obtain ⟨idle, free⟩ := State.mayLock_cases may
  unfold State.signal
  dsimp only
  split
  next signaled => exact .merged event idle free signaled
  next quiet =>
    have quiet := Bool.eq_false_iff.mpr quiet
    split
    next manual => exact .signalAll event idle free quiet manual
    next auto => exact .signalOne event idle free quiet (Bool.eq_false_iff.mpr auto)

theorem isSignaled_move (may : s.mayLock thread event = true) : Move s thread (s.isSignaled thread event) := by
  obtain ⟨idle, free⟩ := State.mayLock_cases may
  unfold State.isSignaled
  split
  next signaled => exact .found event (.isSignaled event true) idle free signaled rfl nofun
  next => exact .notSignaled event idle

theorem timedWait_move {finiteTime : Bool} (may : s.mayLock thread event = true) :
    Move s thread (s.timedWait thread event finiteTime) := by
  obtain ⟨idle, free⟩ := State.mayLock_cases may
  unfold State.timedWait
  dsimp only
  split
  next signaled => exact .found event (.timedWait event true) idle free signaled rfl nofun
  next quiet => exact .timedWait event finiteTime idle free (Bool.eq_false_iff.mpr quiet)

theorem signalOne_move (signaling : (s.thread thread).pc = .signalOne event)
    (moved : s.signalOne thread event = some t) : Move s thread t := by
  unfold State.signalOne at moved
  dsimp only at moved
  split at moved
  next empty =>
    cases moved
    exact .raiseOne event signaling empty
  next first rest queue =>
    split at moved
    next => cases moved
    next =>
      split at moved
      next fired =>
        cases moved
        exact .skipOne event first rest signaling queue fired
      next ready =>
        cases moved
        exact .fireOne event first rest signaling queue (Bool.eq_false_iff.mpr ready)

theorem signalAll_move {queued rest : List Thread} (signaling : (s.thread thread).pc = .signalAll event queued rest)
    (moved : s.signalAll thread event queued rest = some t) : Move s thread t := by
  cases rest with
  | nil =>
    cases moved
    exact .raiseAll event queued signaling
  | cons first rest =>
    unfold State.signalAll at moved
    dsimp only at moved
    split at moved
    next => cases moved
    next =>
      split at moved
      next fired =>
        cases moved
        exact .skipAll event first queued rest signaling fired
      next ready =>
        cases moved
        exact .fireAll event first queued rest signaling (Bool.eq_false_iff.mpr ready)

theorem checkTimedWait_move {finiteTime expired : Bool} (waiting : (s.thread thread).pc = .timedWait event finiteTime) :
    Move s thread (s.checkTimedWait thread event expired) := by
  unfold State.checkTimedWait
  dsimp only
  cases fired : (s.thread thread).waiter.fired with
  | true => exact .awake event finiteTime waiting fired
  | false =>
    cases expired with
    | true => exact .expire event finiteTime waiting fired
    | false => exact .sleep

variable {raw : List Event}

theorem enqueueMany_move {waitables rest : List (Event × Nat)} {held : List Event}
    (enqueuing : (s.thread thread).pc = .enqueueMany raw waitables rest held)
    (moved : s.enqueueMany thread raw waitables held rest = some t) : Move s thread t := by
  cases rest with
  | nil =>
    cases moved
    exact .enqueued raw waitables held enqueuing
  | cons head rest =>
    unfold State.enqueueMany at moved
    dsimp only at moved
    split at moved
    next => cases moved
    next free =>
      have free := Option.not_isSome_iff_eq_none.mp free
      split at moved
      next signaled =>
        cases moved
        exact .foundMany raw waitables head.1 head.2 rest held enqueuing free signaled
      next quiet =>
        cases moved
        exact .lock raw waitables head.1 head.2 rest held enqueuing free (Bool.eq_false_iff.mpr quiet)

theorem checkWaitMany_move (waiting : (s.thread thread).pc = .waitMany raw) :
    Move s thread (s.checkWaitMany thread raw) := by
  unfold State.checkWaitMany
  dsimp only
  split
  next fired => exact .awakeMany raw waiting fired
  next => exact waiting ▸ .sleep

theorem dequeueMany_move {signaledEvent : Option Event} {i signaledIndex : Nat}
    (dequeuing : (s.thread thread).pc = .dequeueMany raw signaledEvent i signaledIndex)
    (moved : s.dequeueMany thread raw signaledEvent i signaledIndex = some t) : Move s thread t := by
  unfold State.dequeueMany at moved
  split at moved
  next past =>
    cases moved
    exact .leaveMany raw signaledEvent i signaledIndex dequeuing past
  next event here =>
    split at moved
    next => cases moved
    next free =>
      have free := Option.not_isSome_iff_eq_none.mp free
      split at moved
      next same =>
        cases moved
        have same := eq_of_beq same
        exact same ▸ .passSignaled raw event i signaledIndex (same ▸ dequeuing) here free
      next other =>
        cases moved
        exact .dequeue raw signaledEvent event i signaledIndex dequeuing here (fun same => other (beq_iff_eq.mpr same))
          free

theorem advance_move {late : Bool} (moved : s.advance thread late = some t) : Move s thread t := by
  unfold State.advance at moved
  split at moved
  next => cases moved
  next event signaling => exact signalOne_move signaling moved
  next event queued rest signaling => exact signalAll_move signaling moved
  next event finiteTime waiting =>
    cases moved
    exact checkTimedWait_move waiting
  next event returnValue disabled =>
    split at moved
    next => cases moved
    next free =>
      cases moved
      exact .leave event returnValue disabled (Option.not_isSome_iff_eq_none.mp free)
  next enqueuing => exact enqueueMany_move enqueuing moved
  next raw waiting =>
    cases moved
    exact checkWaitMany_move waiting
  next dequeuing => exact dequeueMany_move dequeuing moved

/-- Every step is a move of some thread. -/
theorem step_move {action : Action Event Thread} (moved : step s action = some t) : ∃ thread, Move s thread t := by
  cases action with
  | signal thread event =>
    obtain ⟨may, moved⟩ := Option.ite_none_right_eq_some.mp moved
    cases moved
    exact ⟨thread, signal_move may⟩
  | reset thread event =>
    obtain ⟨may, moved⟩ := Option.ite_none_right_eq_some.mp moved
    cases moved
    exact ⟨thread, .reset event (State.mayLock_cases may).1 (State.mayLock_cases may).2⟩
  | isSignaled thread event =>
    obtain ⟨may, moved⟩ := Option.ite_none_right_eq_some.mp moved
    cases moved
    exact ⟨thread, isSignaled_move may⟩
  | timedWait thread event finiteTime =>
    obtain ⟨may, moved⟩ := Option.ite_none_right_eq_some.mp moved
    cases moved
    exact ⟨thread, timedWait_move may⟩
  | waitMany thread raw =>
    simp only [step] at moved
    split at moved
    next idle =>
      obtain ⟨-, moved⟩ := Option.ite_none_left_eq_some.mp moved
      cases moved
      exact ⟨thread, .waitMany raw idle⟩
    next => cases moved
  | advance thread late => exact ⟨thread, advance_move moved⟩

end Libchrome.Base.Synchronization
