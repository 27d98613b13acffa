import Mathlib.Logic.Function.Basic
import Libchrome.Library.Machine

/-!
# `CancelableTaskTracker`

The tracker, the runner its tasks are posted to and the loop of its own thread as one machine. Every call
allocates one `CancellationFlag`, which is named by the id it was allocated for. A step of the target
runner may come between any two steps of the origin thread, and while that thread is inside
`PostTaskAndReply`. The ids do not overflow, as the source says.
-/

namespace Libchrome.Base.Task

/-- A `TaskId` is a number; this one is never given out. -/
def kBadTaskId : Nat := 0

/-- A `CancellationFlag` on the heap. -/
inductive Flag where
  | unallocated
  | clear
  | raised
  | deleted
  deriving DecidableEq, Repr

/-- Where the closures of an id are: `posted` in the target runner, `running` between the check of the flag
and the post of the reply, `replying` between the check on the origin thread and `Untrack`. A `callback` has
copies; after the last one `Untrack` may wait in the loop. A runner that is gone has `lost` what it held. -/
inductive Stage where
  | none
  | posted
  | running
  | replyQueued
  | replying
  | callback (copies : Nat)
  | untrackQueued
  | lost
  | done
  deriving DecidableEq, Repr

/-- The tasks of the origin loop: `RunReplyAndSelfDestruct` and `RunAndDeleteFlag`. -/
inductive OriginTask where
  | reply (id : Nat)
  | untrack (id : Nat)
  deriving DecidableEq, Repr

/-- `taskFlags` holds the keys of `task_flags_`. `posting` is the id inside `PostTaskAndReply`, `frames` are
the replies in progress, the innermost first. The last fields record what happened: the bodies and replies that
were started, the ids returned, those whose reply or `untrack` step has run, whether every `erase` found
its id, and whether a flag was used that is not there. -/
structure CancelableTaskTracker where
  nextId : Nat := 1
  taskFlags : List Nat := []
  flag : Nat → Flag := fun _ => .unallocated
  stage : Nat → Stage := fun _ => .none
  posting : Option Nat := none
  alive : Bool := true
  originQueue : List OriginTask := []
  frames : List Nat := []
  bodies : List Nat := []
  replies : List Nat := []
  returned : List Nat := []
  settled : List Nat := []
  erased : List (Nat × Bool) := []
  fault : Bool := false

/-- What the threads do. `accepted` is the result of `PostTask`. -/
inductive Action where
  | postTaskAndReply (accepted : Bool)
  | track
  | newTrackedTaskId
  | tryCancel (id : Nat)
  | tryCancelAll
  | destroy
  | startTask (id : Nat)
  | endTask (id : Nat) (accepted : Bool)
  | dropTask (id : Nat)
  | copyCallback (id : Nat)
  | isCanceled (id : Nat)
  | deleteCallback (id : Nat) (onOrigin accepted : Bool)
  | runOrigin
  | dropOrigin
  | endReply
  deriving DecidableEq, Repr

namespace CancelableTaskTracker

def setFlag (s : CancelableTaskTracker) (id : Nat) (flag : Flag) : CancelableTaskTracker :=
  { s with flag := Function.update s.flag id flag }

def setStage (s : CancelableTaskTracker) (id : Nat) (stage : Stage) : CancelableTaskTracker :=
  { s with stage := Function.update s.stage id stage }

/-- `flag->Set()`. -/
def raise (s : CancelableTaskTracker) (id : Nat) : CancelableTaskTracker :=
  if s.flag id = .clear ∨ s.flag id = .raised then s.setFlag id .raised else { s with fault := true }

/-- `flag->IsSet()`, with what follows where it is not. -/
def unlessSet (s : CancelableTaskTracker) (id : Nat) (run : CancelableTaskTracker → CancelableTaskTracker) :
    CancelableTaskTracker :=
  if s.flag id = .clear then run s else if s.flag id = .raised then s else { s with fault := true }

/-- `delete flag`. -/
def deleteFlag (s : CancelableTaskTracker) (id : Nat) : CancelableTaskTracker :=
  if s.flag id = .clear ∨ s.flag id = .raised then s.setFlag id .deleted else { s with fault := true }

def insertFlag (s : CancelableTaskTracker) (id : Nat) : CancelableTaskTracker :=
  { s with taskFlags := s.taskFlags.insert id, returned := id :: s.returned }

/-- `Untrack`, bound to a weak pointer: it does nothing once the tracker is gone. -/
def untrack (s : CancelableTaskTracker) (id : Nat) : CancelableTaskTracker :=
  if s.alive then
    { s with
      taskFlags := s.taskFlags.erase id
      erased := (id, decide (id ∈ s.taskFlags)) :: s.erased }
  else s

/-- `Untrack`, then the end of the flag. -/
def settle (s : CancelableTaskTracker) (id : Nat) : CancelableTaskTracker :=
  let untracked := ((s.untrack id).deleteFlag id).setStage id .done
  { untracked with settled := id :: untracked.settled }

def hasTrackedTasks (s : CancelableTaskTracker) : Bool := !s.taskFlags.isEmpty

/-- The call of `PostTaskAndReply` up to the result of the target runner; a refused reply is deleted with its
flag, and `kBadTaskId` is returned. -/
def post (s : CancelableTaskTracker) (accepted : Bool) : CancelableTaskTracker :=
  let id := s.nextId
  let allocated := { s with nextId := id + 1 }.setFlag id .clear
  if accepted then { allocated.setStage id .posted with posting := some id } else allocated.deleteFlag id

def allocateCallback (s : CancelableTaskTracker) : CancelableTaskTracker :=
  let id := s.nextId
  (({ s with nextId := id + 1 }.setFlag id .clear).setStage id (.callback 1)).insertFlag id

def recordBody (id : Nat) (s : CancelableTaskTracker) : CancelableTaskTracker := { s with bodies := id :: s.bodies }

def recordReply (id : Nat) (s : CancelableTaskTracker) : CancelableTaskTracker := { s with replies := id :: s.replies }

def pushOrigin (s : CancelableTaskTracker) (task : OriginTask) : CancelableTaskTracker :=
  { s with originQueue := s.originQueue ++ [task] }

/-- `RunOrPostToTaskRunner`, from the last copy of a callback. -/
def deleteLast (s : CancelableTaskTracker) (id : Nat) (onOrigin accepted : Bool) : CancelableTaskTracker :=
  if onOrigin then s.settle id
  else if accepted then (s.pushOrigin (.untrack id)).setStage id .untrackQueued
  else s.setStage id .lost

/-- The task that the origin loop has taken from its queue. -/
def runTask (s : CancelableTaskTracker) : OriginTask → CancelableTaskTracker
  | .reply id => { (s.unlessSet id (recordReply id)).setStage id .replying with frames := id :: s.frames }
  | .untrack id => s.settle id

/-- The origin loop is gone, with the task that it held. -/
def dropOriginTask (s : CancelableTaskTracker) : OriginTask → CancelableTaskTracker
  | .reply id => s.setStage id .lost
  | .untrack id => s.setStage id .lost

def originFree (s : CancelableTaskTracker) : Bool := s.posting.isNone

end CancelableTaskTracker

open CancelableTaskTracker

def step (s : CancelableTaskTracker) : Action → Option CancelableTaskTracker
  | .postTaskAndReply accepted => if s.alive && s.originFree then some (s.post accepted) else none
  | .track =>
    match s.posting with
    | some id => some { s.insertFlag id with posting := none }
    | none => none
  | .newTrackedTaskId => if s.alive && s.originFree then some s.allocateCallback else none
  | .tryCancel id =>
    if s.alive && s.originFree then some (if id ∈ s.taskFlags then s.raise id else s) else none
  | .tryCancelAll => if s.alive && s.originFree then some (s.taskFlags.foldl raise s) else none
  | .destroy =>
    if s.alive && s.originFree then some { s.taskFlags.foldl raise s with alive := false, taskFlags := [] } else none
  | .startTask id =>
    if s.stage id = .posted then some ((s.unlessSet id (recordBody id)).setStage id .running) else none
  | .endTask id accepted =>
    if s.stage id = .running then
      some (if accepted then (s.pushOrigin (.reply id)).setStage id .replyQueued else s.setStage id .lost)
    else none
  | .dropTask id => if s.stage id = .posted then some (s.setStage id .lost) else none
  | .copyCallback id =>
    match s.stage id with
    | .callback copies => some (s.setStage id (.callback (copies + 1)))
    | _ => none
  | .isCanceled id =>
    match s.stage id with
    | .callback _ => some (s.unlessSet id fun asked => asked)
    | _ => none
  | .deleteCallback id onOrigin accepted =>
    match s.stage id with
    | .callback (copies + 1) =>
      if onOrigin && !s.originFree then none
      else if copies = 0 then some (s.deleteLast id onOrigin accepted)
      else some (s.setStage id (.callback copies))
    | _ => none
  | .runOrigin =>
    match s.originQueue with
    | task :: rest => if s.originFree then some ({ s with originQueue := rest }.runTask task) else none
    | [] => none
  | .dropOrigin =>
    match s.originQueue with
    | task :: rest => if s.originFree then some ({ s with originQueue := rest }.dropOriginTask task) else none
    | [] => none
  | .endReply =>
    match s.frames with
    | id :: rest => if s.originFree then some ({ s with frames := rest }.settle id) else none
    | [] => none

end Libchrome.Base.Task
