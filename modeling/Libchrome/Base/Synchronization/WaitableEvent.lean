import Libchrome.Library.Machine
import Mathlib.Data.List.Sort

/-!
# `WaitableEvent` on POSIX

Any number of events, by their address, and of threads. A step is what a thread does under one lock: a kernel's
`lock_` that is kept from one step to another is in `owner`, and one that is not is free when the step begins;
a lock is given back with the last thing done under it. A `SyncWaiter` lives on its thread's stack, so that the
thread names it.
-/

namespace Libchrome.Base.Synchronization

/-- `locked` is its `lock_`, which `TimedWait` and `WaitMany` hold from the queue to their first `cv()->Wait`. -/
structure SyncWaiter (Event : Type) where
  fired : Bool := false
  signalingEvent : Option Event := none
  locked : Bool := false

/-- `WaitableEventKernel`. -/
structure Kernel (Thread : Type) where
  manualReset : Bool
  signaled : Bool
  waiters : List Thread := []
  owner : Option Thread := none

/-- Where a thread stands. `signalAll` has the queue it found and the part the loop has before it; `disabled` is
`TimedWait` after `Disable`; `enqueueMany` has the locks it holds, last first, and the waitables before it. -/
inductive Pc (Event Thread : Type) where
  | idle
  | signalOne (event : Event)
  | signalAll (event : Event) (queued rest : List Thread)
  | timedWait (event : Event) (finiteTime : Bool)
  | disabled (event : Event) (returnValue : Bool)
  | enqueueMany (rawWaitables : List Event) (waitables rest : List (Event × Nat)) (held : List Event)
  | waitMany (rawWaitables : List Event)
  | dequeueMany (rawWaitables : List Event) (signaledEvent : Option Event) (i signaledIndex : Nat)

structure Local (Event Thread : Type) where
  pc : Pc Event Thread := .idle
  waiter : SyncWaiter Event := {}

/-- What a wait returned, `IsSignaled` being one that does not block. -/
inductive Result (Event : Type) where
  | isSignaled (event : Event) (result : Bool)
  | timedWait (event : Event) (returnValue : Bool)
  | waitMany (rawWaitables : List Event) (index : Nat)

/-- What happened. A wait is granted when `Fire` accepts or when it finds the event signalled; `raised` is the end
of a `Signal` that leaves its event signalled. -/
inductive Entry (Event Thread : Type) where
  | waiting (thread : Thread)
  | signal (event : Event) (queued : List Thread)
  | raised (event : Event)
  | reset (event : Event)
  | granted (event : Event) (thread : Thread)
  | timedOut (thread : Thread)
  | returned (thread : Thread) (result : Result Event)

/-- The log has the last entry first; no step reads it. -/
structure State (Event Thread : Type) where
  kernel : Event → Kernel Thread
  thread : Thread → Local Event Thread := fun _ => {}
  log : List (Entry Event Thread) := []

/-- `late` says that `end_time` has come. -/
inductive Action (Event Thread : Type) where
  | signal (thread : Thread) (event : Event)
  | reset (thread : Thread) (event : Event)
  | isSignaled (thread : Thread) (event : Event)
  | timedWait (thread : Thread) (event : Event) (finiteTime : Bool)
  | waitMany (thread : Thread) (rawWaitables : List Event)
  | advance (thread : Thread) (late : Bool)

variable {Event Thread : Type} [LinearOrder Event] [DecidableEq Thread]

/-- The event that the result calls signalled. -/
def Result.event : Result Event → Option Event
  | isSignaled event result => if result then some event else none
  | timedWait event returnValue => if returnValue then some event else none
  | waitMany rawWaitables index => rawWaitables[index]?

namespace SyncWaiter

/-- `Fire` when it accepts. -/
def fire (event : Event) (sw : SyncWaiter Event) : SyncWaiter Event :=
  { sw with fired := true, signalingEvent := some event }

/-- `Disable`, and the lock given back. -/
def disable (sw : SyncWaiter Event) : SyncWaiter Event := { sw with fired := true, locked := false }

def unlock (sw : SyncWaiter Event) : SyncWaiter Event := { sw with locked := false }

end SyncWaiter

namespace State

def setKernel (s : State Event Thread) (event : Event) (kernel : Kernel Thread) : State Event Thread :=
  { s with kernel := Function.update s.kernel event kernel }

def setThread (s : State Event Thread) (thread : Thread) (now : Local Event Thread) : State Event Thread :=
  { s with thread := Function.update s.thread thread now }

def setPc (s : State Event Thread) (thread : Thread) (pc : Pc Event Thread) : State Event Thread :=
  s.setThread thread { s.thread thread with pc }

def setWaiter (s : State Event Thread) (thread : Thread) (waiter : SyncWaiter Event) : State Event Thread :=
  s.setThread thread { s.thread thread with waiter }

def record (s : State Event Thread) (entries : List (Entry Event Thread)) : State Event Thread :=
  { s with log := entries ++ s.log }

/-- A wait takes `signaled_`, which an auto-reset event loses. -/
def take (s : State Event Thread) (event : Event) : State Event Thread :=
  s.setKernel event { s.kernel event with signaled := (s.kernel event).manualReset }

/-- `Dequeue`. -/
def dequeue (s : State Event Thread) (event : Event) (thread : Thread) : State Event Thread :=
  s.setKernel event { s.kernel event with waiters := (s.kernel event).waiters.erase thread }

/-- The call of the thread is over. -/
def finish (s : State Event Thread) (thread : Thread) (entries : List (Entry Event Thread)) : State Event Thread :=
  (s.setPc thread .idle).record entries

/-- The kernels when the locks in `held` are given back, after `Enqueue` in each for `EnqueueMany` that returns 0. -/
def release (s : State Event Thread) (held : List Event) (queue : List Thread) : State Event Thread :=
  { s with
    kernel := fun event =>
      if event ∈ held then { s.kernel event with owner := none, waiters := (s.kernel event).waiters ++ queue }
      else s.kernel event }

/-- `Signal` ends with the event signalled: `SignalAll` has cleared the queue, or `SignalOne` found it empty. -/
def raise (s : State Event Thread) (thread : Thread) (event : Event) : State Event Thread :=
  (s.setKernel event { s.kernel event with signaled := true, waiters := [], owner := none }).finish
    thread [.raised event]

/-- `Signal` once the lock is held. -/
def signal (s : State Event Thread) (thread : Thread) (event : Event) : State Event Thread :=
  let kernel := s.kernel event
  if kernel.signaled then s.record [.raised event, .signal event kernel.waiters]
  else
    ((s.setKernel event { kernel with owner := some thread }).setPc thread
      (if kernel.manualReset then .signalAll event kernel.waiters kernel.waiters else .signalOne event)).record
      [.signal event kernel.waiters]

/-- One turn of the loop of `SignalOne`. -/
def signalOne (s : State Event Thread) (thread : Thread) (event : Event) : Option (State Event Thread) :=
  let kernel := s.kernel event
  match kernel.waiters with
  | [] => some (s.raise thread event)
  | first :: rest =>
    let sw := (s.thread first).waiter
    if sw.locked then none
    else if sw.fired then some (s.setKernel event { kernel with waiters := rest })
    else
      some (((s.setWaiter first (sw.fire event)).setKernel event
        { kernel with waiters := rest, owner := none }).finish thread [.granted event first])

/-- One turn of the loop of `SignalAll`, or what follows the loop. -/
def signalAll (s : State Event Thread) (thread : Thread) (event : Event) (queued : List Thread) :
    List Thread → Option (State Event Thread)
  | [] => some (s.raise thread event)
  | first :: rest =>
    let sw := (s.thread first).waiter
    if sw.locked then none
    else if sw.fired then some (s.setPc thread (.signalAll event queued rest))
    else
      some (((s.setWaiter first (sw.fire event)).setPc thread (.signalAll event queued rest)).record
        [.granted event first])

/-- The loop of `TimedWait`. -/
def checkTimedWait (s : State Event Thread) (thread : Thread) (event : Event) (expired : Bool) : State Event Thread :=
  let sw := (s.thread thread).waiter
  if sw.fired || expired then
    (s.setThread thread ⟨.disabled event sw.fired, sw.disable⟩).record (if sw.fired then [] else [.timedOut thread])
  else s.setWaiter thread sw.unlock

/-- `std::sort` by address of the events paired with their indices. -/
def waitables (rawWaitables : List Event) : List (Event × Nat) :=
  rawWaitables.zipIdx.insertionSort fun a b => a.1 ≤ b.1

/-- One level of `EnqueueMany`, which ends with the count of what remains when it finds a signalled event. -/
def enqueueMany (s : State Event Thread) (thread : Thread) (raw : List Event) (waitables : List (Event × Nat))
    (held : List Event) : List (Event × Nat) → Option (State Event Thread)
  | [] => some ((s.release held [thread]).setThread thread ⟨.waitMany raw, { locked := true }⟩)
  | (event, index) :: rest =>
    if (s.kernel event).owner.isSome then none
    else if (s.kernel event).signaled then
      let r := ((event, index) :: rest).length
      let signaled := (waitables[waitables.length - r]?.map Prod.snd).getD 0
      some (((s.take event).release held []).finish thread
        [.returned thread (.waitMany raw signaled), .granted event thread])
    else
      some ((s.setKernel event { s.kernel event with owner := some thread }).setPc thread
        (.enqueueMany raw waitables rest (event :: held)))

/-- The wait of `WaitMany`. -/
def checkWaitMany (s : State Event Thread) (thread : Thread) (raw : List Event) : State Event Thread :=
  let sw := (s.thread thread).waiter
  s.setThread thread ⟨if sw.fired then .dequeueMany raw sw.signalingEvent 0 0 else .waitMany raw, sw.unlock⟩

/-- One turn of the last loop of `WaitMany`. -/
def dequeueMany (s : State Event Thread) (thread : Thread) (raw : List Event) (signaledEvent : Option Event)
    (i signaledIndex : Nat) : Option (State Event Thread) :=
  match raw[i]? with
  | none => some (s.finish thread [.returned thread (.waitMany raw signaledIndex)])
  | some event =>
    if (s.kernel event).owner.isSome then none
    else if signaledEvent == some event then some (s.setPc thread (.dequeueMany raw signaledEvent (i + 1) i))
    else some ((s.dequeue event thread).setPc thread (.dequeueMany raw signaledEvent (i + 1) signaledIndex))

/-- The next step of a thread that is in a call. -/
def advance (s : State Event Thread) (thread : Thread) (late : Bool) : Option (State Event Thread) :=
  match (s.thread thread).pc with
  | .idle => none
  | .signalOne event => s.signalOne thread event
  | .signalAll event queued rest => s.signalAll thread event queued rest
  | .timedWait event finiteTime => some (s.checkTimedWait thread event (finiteTime && late))
  | .disabled event returnValue =>
    if (s.kernel event).owner.isSome then none
    else some ((s.dequeue event thread).finish thread [.returned thread (.timedWait event returnValue)])
  | .enqueueMany raw waitables rest held => s.enqueueMany thread raw waitables held rest
  | .waitMany raw => some (s.checkWaitMany thread raw)
  | .dequeueMany raw signaledEvent i signaledIndex => s.dequeueMany thread raw signaledEvent i signaledIndex

/-- The thread is in no call and the lock of the event is free. -/
def mayLock (s : State Event Thread) (thread : Thread) (event : Event) : Bool :=
  match (s.thread thread).pc with
  | .idle => (s.kernel event).owner.isNone
  | _ => false

/-- `IsSignaled` once the lock is held. -/
def isSignaled (s : State Event Thread) (thread : Thread) (event : Event) : State Event Thread :=
  if (s.kernel event).signaled then
    (s.take event).record
      [.returned thread (.isSignaled event true), .granted event thread, .waiting thread]
  else s.record [.returned thread (.isSignaled event false), .waiting thread]

/-- `TimedWait` up to its loop. -/
def timedWait (s : State Event Thread) (thread : Thread) (event : Event) (finiteTime : Bool) : State Event Thread :=
  let kernel := s.kernel event
  if kernel.signaled then
    (s.take event).record
      [.returned thread (.timedWait event true), .granted event thread, .waiting thread]
  else
    ((s.setKernel event { kernel with waiters := kernel.waiters ++ [thread] }).setThread thread
      ⟨.timedWait event finiteTime, { locked := true }⟩).record [.waiting thread]

end State

/-- One step. `Wait` is `TimedWait` without `finite_time`. -/
def step (s : State Event Thread) : Action Event Thread → Option (State Event Thread)
  | .signal thread event => if s.mayLock thread event then some (s.signal thread event) else none
  | .reset thread event =>
    if s.mayLock thread event then
      some ((s.setKernel event { s.kernel event with signaled := false }).record [.reset event])
    else none
  | .isSignaled thread event => if s.mayLock thread event then some (s.isSignaled thread event) else none
  | .timedWait thread event finiteTime =>
    if s.mayLock thread event then some (s.timedWait thread event finiteTime) else none
  | .waitMany thread raw =>
    match (s.thread thread).pc with
    | .idle =>
      if raw.isEmpty then none
      else
        some ((s.setThread thread ⟨.enqueueMany raw (State.waitables raw) (State.waitables raw) [], {}⟩).record
          [.waiting thread])
    | _ => none
  | .advance thread late => s.advance thread late

/-- No thread is in a call. -/
def initial (manualReset initiallySignaled : Event → Bool) : State Event Thread where
  kernel event := { manualReset := manualReset event, signaled := initiallySignaled event }

abbrev Reachable (manualReset initiallySignaled : Event → Bool) : State Event Thread → Prop :=
  Library.Reaches step (fun _ _ => True) (initial manualReset initiallySignaled)

end Libchrome.Base.Synchronization
