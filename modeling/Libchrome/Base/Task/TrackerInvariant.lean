import Libchrome.Base.Task.CancelableTaskTracker

/-!
# One id at a time

A view is what the state holds about one id. `Legal` says what each stage of its closures goes with, and
every operation on the id takes a legal view to a legal view.
-/

namespace Libchrome.Base.Task

def Stage.live : Stage → Bool
  | .none => false
  | .done => false
  | _ => true

/-- The state as it concerns one id: numbers count the entries of the id. -/
@[ext] structure View where
  stage : Stage
  flag : Flag
  posting : Bool
  tracked : Nat
  returned : Nat
  queuedReply : Nat
  queuedUntrack : Nat
  framed : Nat
  bodies : Nat
  replies : Nat
  settled : Nat
  erased : Nat
  missed : Nat

/-- What goes with each stage. -/
structure Legal (alive : Bool) (view : View) : Prop where
  held : view.flag = .clear ∨ view.flag = .raised ↔ view.stage.live = true
  early : view.posting = true →
    view.stage = .posted ∨ view.stage = .running ∨ view.stage = .replyQueued ∨ view.stage = .lost
  tracked : view.tracked = if alive && view.stage.live && !view.posting then 1 else 0
  returned : view.returned = if view.stage ≠ .none ∧ view.posting = false then 1 else 0
  queuedReply : view.queuedReply = if view.stage = .replyQueued then 1 else 0
  queuedUntrack : view.queuedUntrack = if view.stage = .untrackQueued then 1 else 0
  framed : view.framed = if view.stage = .replying then 1 else 0
  bodies : view.bodies ≤ if view.stage = .none ∨ view.stage = .posted then 0 else 1
  replies : view.replies ≤ if view.stage = .replying ∨ view.stage = .done then 1 else 0
  settled : view.settled = if view.stage = .done then 1 else 0
  erased : view.erased ≤ view.settled
  missed : view.missed = 0
  copies : view.stage ≠ .callback 0

namespace Legal
variable {alive : Bool} {view : View}

theorem allocate (legal : Legal alive view) (absent : view.stage = .none) :
    Legal alive { view with stage := .posted, flag := .clear, posting := true } ∧
      Legal alive { view with flag := .deleted } := by
  cases legal
  constructor <;> constructor <;> simp_all [Stage.live]

theorem callback (legal : Legal true view) (absent : view.stage = .none) :
    Legal true { view with
      stage := .callback 1
      flag := .clear
      tracked := view.tracked + 1
      returned := view.returned + 1 } := by
  cases legal
  constructor <;> simp_all [Stage.live]

theorem track (legal : Legal true view) (posting : view.posting = true) :
    Legal true { view with
      posting := false
      tracked := view.tracked + 1
      returned := view.returned + 1 } := by
  have where' := legal.early posting
  cases legal
  rcases where' with stage | stage | stage | stage <;> constructor <;> simp_all [Stage.live]

section
variable (legal : Legal alive view)
include legal

theorem raise (live : view.stage.live = true) :
    Legal alive { view with flag := .raised } := by
  cases legal
  constructor <;> simp_all

theorem destroy : Legal false { view with tracked := 0 } := by
  cases legal
  constructor <;> simp_all

theorem start (posted : view.stage = .posted) :
    Legal alive { view with stage := .running } ∧
      Legal alive { view with stage := .running, bodies := view.bodies + 1 } := by
  cases legal
  constructor <;> constructor <;> simp_all [Stage.live]

theorem queueReply (running : view.stage = .running) :
    Legal alive { view with stage := .replyQueued, queuedReply := view.queuedReply + 1 } := by
  cases legal
  constructor <;> simp_all [Stage.live]

/-- A runner that goes away loses a task, the post of a reply or the post of an `untrack`. -/
theorem lose
    (from' : view.stage = .posted ∨ view.stage = .running ∨ ∃ copies, view.stage = .callback copies) :
    Legal alive { view with stage := .lost } := by
  cases legal
  rcases from' with stage | stage | ⟨count, stage⟩ <;> constructor <;> simp_all [Stage.live]

theorem lose_queued
    (from' : view.stage = .replyQueued ∨ view.stage = .untrackQueued) :
    Legal alive { view with stage := .lost, queuedReply := 0, queuedUntrack := 0 } := by
  cases legal
  rcases from' with stage | stage <;> constructor <;> simp_all [Stage.live]

theorem copy {copies : Nat} (held : view.stage = .callback copies) {count : Nat}
    (some' : count ≠ 0) : Legal alive { view with stage := .callback count } := by
  cases legal
  constructor <;> simp_all [Stage.live]

theorem queueUntrack {copies : Nat} (held : view.stage = .callback copies) :
    Legal alive { view with stage := .untrackQueued, queuedUntrack := view.queuedUntrack + 1 } := by
  cases legal
  constructor <;> simp_all [Stage.live]

theorem reply (queued : view.stage = .replyQueued) (free : view.posting = false) :
    Legal alive { view with stage := .replying, queuedReply := 0, framed := view.framed + 1 } ∧
      Legal alive { view with
        stage := .replying
        queuedReply := 0
        framed := view.framed + 1
        replies := view.replies + 1 } := by
  cases legal
  constructor <;> constructor <;> simp_all [Stage.live]

end

/-- Where the `untrack` step may run from. -/
def Settling (stage : Stage) : Prop :=
  stage = .replying ∨ stage = .untrackQueued ∨ ∃ copies, stage = .callback copies

theorem settle (legal : Legal alive view) (settling : Settling view.stage) {count : Nat} (once : count ≤ 1) :
    Legal alive { view with
      stage := .done
      flag := .deleted
      tracked := 0
      queuedUntrack := 0
      framed := 0
      settled := view.settled + 1
      erased := view.erased + count } := by
  cases legal
  rcases settling with stage | stage | ⟨count, stage⟩ <;> constructor <;> simp_all [Stage.live]

/-- Before its `untrack` step an id is in the map, as long as there is a map. -/
theorem tracked_of_settling (legal : Legal alive view) (settling : Settling view.stage) :
    view.tracked = if alive then 1 else 0 := by
  cases legal
  rcases settling with stage | stage | ⟨count, stage⟩ <;> simp_all [Stage.live]

end Legal
/-! Every reachable state is legal for every id, and never uses a flag that is not there. -/

open Library

namespace CancelableTaskTracker
variable {s t : CancelableTaskTracker} {id : Nat}

def view (s : CancelableTaskTracker) (id : Nat) : View where
  stage := s.stage id
  flag := s.flag id
  posting := s.posting == some id
  tracked := s.taskFlags.count id
  returned := s.returned.count id
  queuedReply := s.originQueue.count (.reply id)
  queuedUntrack := s.originQueue.count (.untrack id)
  framed := s.frames.count id
  bodies := s.bodies.count id
  replies := s.replies.count id
  settled := s.settled.count id
  erased := s.erased.count (id, true)
  missed := s.erased.count (id, false)

/-- The invariant: legal for every id, nothing yet about the ids to come, and no wrong use of a flag. -/
structure Sound (s : CancelableTaskTracker) : Prop where
  legal : ∀ id, Legal s.alive (s.view id)
  fresh : ∀ id, s.nextId ≤ id → s.stage id = .none ∧ s.flag id = .unallocated
  positive : 0 < s.nextId
  caller : s.posting = none ∨ s.alive = true
  faultless : s.fault = false

theorem Sound.live_flag (sound : s.Sound) (live : (s.stage id).live = true) :
    s.flag id = .clear ∨ s.flag id = .raised := (sound.legal id).held.mpr live

theorem posting_of_free (free : s.originFree = true) : s.posting = none := Option.isNone_iff_eq_none.mp free

theorem view_posting_of_free (free : s.originFree = true) : (s.view id).posting = false := by
  simp [view, posting_of_free free]

theorem Sound.live_of_tracked (sound : s.Sound) (member : id ∈ s.taskFlags) : (s.stage id).live = true := by
  have counted := (sound.legal id).tracked
  have positive : 0 < (s.view id).tracked := List.count_pos_iff.mpr member
  by_contra dead
  have zero : (s.view id).tracked = 0 := by
    rw [counted]
    simp [view, dead]
  omega

theorem sound_initial : Sound {} where
  legal := by
    intro id
    constructor <;> simp [view, Stage.live]
  fresh := fun _ _ => ⟨rfl, rfl⟩
  positive := Nat.one_pos
  caller := .inl rfl
  faultless := rfl

section
variable (sound : s.Sound)
include sound

/-- A step that changes one id, and leaves what belongs to the others. -/
theorem Sound.one (target : Nat) {after : View} (legal : Legal s.alive after)
    (becomes : t.view target = after) (others : ∀ id, id ≠ target → t.view id = s.view id)
    (alive : t.alive = s.alive) (known : target < t.nextId) (later : s.nextId ≤ t.nextId)
    (caller : t.posting = none ∨ t.alive = true) (faultless : t.fault = false) : t.Sound where
  legal := by
    intro id
    by_cases same : id = target
    · rwa [same, becomes, alive]
    · rw [others id same, alive]
      exact sound.legal id
  fresh := by
    intro id from'
    have apart : id ≠ target := by omega
    have old := sound.fresh id (by omega)
    have stage : t.stage id = s.stage id := congrArg View.stage (others id apart)
    have flag : t.flag id = s.flag id := congrArg View.flag (others id apart)
    rw [stage, flag]
    exact old
  positive := Nat.lt_of_lt_of_le sound.positive later
  caller := caller
  faultless := faultless

theorem Sound.known (live : (s.stage id).live = true) : id < s.nextId := by
  by_contra late
  have absent := (sound.fresh id (Nat.le_of_not_lt late)).1
  rw [absent] at live
  exact Bool.false_ne_true live

theorem Sound.post (alive : s.alive = true) (free : s.originFree = true) (accepted : Bool) :
    (s.post accepted).Sound := by
  have absent := sound.fresh s.nextId (Nat.le_refl _)
  have none' := posting_of_free free
  have legal := (sound.legal s.nextId).allocate absent.1
  cases accepted with
  | true =>
    apply sound.one s.nextId legal.1
    · simp [view, CancelableTaskTracker.post, setFlag, setStage]
    · intro other apart
      simp [view, CancelableTaskTracker.post, setFlag, setStage, apart, apart.symm, none']
    all_goals simp [CancelableTaskTracker.post, setFlag, setStage, alive, sound.faultless]
  | false =>
    apply sound.one s.nextId legal.2
    · simp [view, CancelableTaskTracker.post, setFlag, deleteFlag]
    · intro other apart
      simp [view, CancelableTaskTracker.post, setFlag, deleteFlag, apart]
    all_goals simp [CancelableTaskTracker.post, setFlag, deleteFlag, alive, sound.faultless]

theorem Sound.track (posting : s.posting = some id) :
    ({ s.insertFlag id with posting := none }).Sound := by
  have alive : s.alive = true := sound.caller.resolve_left (by rw [posting]; exact Option.some_ne_none id)
  have called : (s.view id).posting = true := by simp [view, posting]
  have legal : Legal true (s.view id) := alive ▸ sound.legal id
  have absent : id ∉ s.taskFlags := by
    have zero := legal.tracked
    rw [called] at zero
    exact List.count_eq_zero.mp (zero.trans (by simp))
  have live : (s.stage id).live = true := by
    have where' : s.stage id = .posted ∨ s.stage id = .running ∨ s.stage id = .replyQueued ∨ s.stage id = .lost :=
      legal.early called
    rcases where' with stage | stage | stage | stage <;> rw [stage] <;> rfl
  apply sound.one id (alive.symm ▸ legal.track called)
  · simp [view, insertFlag, absent]
  · intro other apart
    simp [view, insertFlag, absent, apart.symm, posting]
  all_goals simp [insertFlag, alive, sound.known live, sound.faultless]

theorem Sound.newTrackedTaskId (alive : s.alive = true) (free : s.originFree = true) :
    s.allocateCallback.Sound := by
  have absent := sound.fresh s.nextId (Nat.le_refl _)
  have none' := posting_of_free free
  have legal : Legal true (s.view s.nextId) := alive ▸ sound.legal s.nextId
  have untracked : s.nextId ∉ s.taskFlags := by
    intro member
    have live := sound.live_of_tracked member
    rw [absent.1] at live
    exact Bool.false_ne_true live
  apply sound.one s.nextId (alive.symm ▸ legal.callback absent.1)
  · simp [view, allocateCallback, insertFlag, setFlag, setStage, untracked, none']
  · intro other apart
    simp [view, allocateCallback, insertFlag, setFlag, setStage, untracked, apart, apart.symm]
  all_goals simp [allocateCallback, insertFlag, setFlag, setStage, alive, sound.faultless]

theorem Sound.raise (live : (s.stage id).live = true) : (s.raise id).Sound := by
  have raised : s.raise id = s.setFlag id .raised := if_pos (sound.live_flag live)
  rw [raised]
  apply sound.one id ((sound.legal id).raise live)
  · simp [view, setFlag]
  · intro other apart
    simp [view, setFlag, apart]
  all_goals simp [setFlag, sound.known live, sound.faultless, sound.caller]

theorem Sound.raiseAll (ids : List Nat) (live : ∀ id ∈ ids, (s.stage id).live = true) :
    (ids.foldl CancelableTaskTracker.raise s).Sound := by
  induction ids generalizing s with
  | nil => exact sound
  | cons id ids ih =>
    have first := live id List.mem_cons_self
    have stages : (s.raise id).stage = s.stage := by
      unfold CancelableTaskTracker.raise
      split <;> rfl
    apply ih (sound.raise first)
    intro other member
    rw [stages]
    exact live other (List.mem_cons_of_mem id member)

end

theorem raiseAll_posting (ids : List Nat) (s : CancelableTaskTracker) :
    (ids.foldl CancelableTaskTracker.raise s).posting = s.posting := by
  induction ids generalizing s with
  | nil => rfl
  | cons id ids ih =>
    rw [List.foldl_cons, ih]
    unfold CancelableTaskTracker.raise
    split <;> rfl

theorem Sound.destroy (sound : s.Sound) (free : s.posting = none) :
    ({ s with alive := false, taskFlags := [] }).Sound where
  legal := by
    intro id
    have shown : view { s with alive := false, taskFlags := [] } id = { s.view id with tracked := 0 } := rfl
    rw [shown]
    exact (sound.legal id).destroy
  fresh := sound.fresh
  positive := sound.positive
  caller := .inl free
  faultless := sound.faultless

theorem Sound.startTask (sound : s.Sound) (posted : s.stage id = .posted) :
    ((s.unlessSet id (recordBody id)).setStage id .running).Sound := by
  have live : (s.stage id).live = true := by rw [posted]; rfl
  have known := sound.known live
  have legal := (sound.legal id).start posted
  cases sound.live_flag live with
  | inl clear =>
    apply sound.one id legal.2
    · simp [view, unlessSet, clear, recordBody, setStage]
    · intro other apart
      simp [view, unlessSet, clear, recordBody, setStage, apart, apart.symm]
    all_goals simp [unlessSet, clear, recordBody, setStage, known, sound.faultless, sound.caller]
  | inr raised =>
    apply sound.one id legal.1
    · simp [view, unlessSet, raised, setStage]
    · intro other apart
      simp [view, unlessSet, raised, setStage, apart]
    all_goals simp [unlessSet, raised, setStage, known, sound.faultless, sound.caller]

theorem Sound.setStage (sound : s.Sound) (known : id < s.nextId) {stage : Stage}
    (legal : Legal s.alive { s.view id with stage := stage }) : (s.setStage id stage).Sound := by
  apply sound.one id legal
  · simp [view, CancelableTaskTracker.setStage]
  · intro other apart
    simp [view, CancelableTaskTracker.setStage, apart]
  all_goals simp [CancelableTaskTracker.setStage, known, sound.faultless, sound.caller]

theorem Sound.queueReply (sound : s.Sound) (running : s.stage id = .running) :
    ((s.pushOrigin (.reply id)).setStage id .replyQueued).Sound := by
  have known := sound.known (show (s.stage id).live = true by rw [running]; rfl)
  apply sound.one id ((sound.legal id).queueReply running)
  · simp [view, pushOrigin, CancelableTaskTracker.setStage]
  · intro other apart
    simp [view, pushOrigin, CancelableTaskTracker.setStage, apart, apart.symm]
  all_goals simp [pushOrigin, CancelableTaskTracker.setStage, known, sound.faultless, sound.caller]

theorem Sound.queueUntrack (sound : s.Sound) {copies : Nat} (held : s.stage id = .callback copies) :
    ((s.pushOrigin (.untrack id)).setStage id .untrackQueued).Sound := by
  have known := sound.known (show (s.stage id).live = true by rw [held]; rfl)
  apply sound.one id ((sound.legal id).queueUntrack held)
  · simp [view, pushOrigin, CancelableTaskTracker.setStage]
  · intro other apart
    simp [view, pushOrigin, CancelableTaskTracker.setStage, apart, apart.symm]
  all_goals simp [pushOrigin, CancelableTaskTracker.setStage, known, sound.faultless, sound.caller]

section Queue
variable {task : OriginTask} {rest : List OriginTask}

theorem Sound.stage_of_reply (sound : s.Sound) (queue : s.originQueue = .reply id :: rest) :
    s.stage id = .replyQueued ∧ rest.count (.reply id) = 0 := by
  have counted : s.originQueue.count (.reply id) = if s.stage id = .replyQueued then 1 else 0 :=
    (sound.legal id).queuedReply
  rw [queue, List.count_cons_self] at counted
  split at counted
  next stage => exact ⟨stage, by omega⟩
  next => omega

theorem Sound.stage_of_untrack (sound : s.Sound) (queue : s.originQueue = .untrack id :: rest) :
    s.stage id = .untrackQueued ∧ rest.count (.untrack id) = 0 := by
  have counted : s.originQueue.count (.untrack id) = if s.stage id = .untrackQueued then 1 else 0 :=
    (sound.legal id).queuedUntrack
  rw [queue, List.count_cons_self] at counted
  split at counted
  next stage => exact ⟨stage, by omega⟩
  next => omega

theorem Sound.stage_of_frame {frames : List Nat} (sound : s.Sound) (stack : s.frames = id :: frames) :
    s.stage id = .replying ∧ frames.count id = 0 := by
  have counted : s.frames.count id = if s.stage id = .replying then 1 else 0 := (sound.legal id).framed
  rw [stack, List.count_cons_self] at counted
  split at counted
  next stage => exact ⟨stage, by omega⟩
  next => omega

theorem Sound.runReply (sound : s.Sound) (free : s.originFree = true) (queue : s.originQueue = .reply id :: rest) :
    ({ s with originQueue := rest }.runTask (.reply id)).Sound := by
  obtain ⟨queued, last⟩ := sound.stage_of_reply queue
  have live : (s.stage id).live = true := by rw [queued]; rfl
  have known := sound.known live
  have legal := (sound.legal id).reply queued (view_posting_of_free free)
  cases sound.live_flag live with
  | inl clear =>
    apply sound.one id legal.2
    · simp [view, runTask, unlessSet, clear, recordReply, CancelableTaskTracker.setStage, queue, last]
    · intro other apart
      simp [view, runTask, unlessSet, clear, recordReply, CancelableTaskTracker.setStage, queue, apart, apart.symm]
    all_goals simp [runTask, unlessSet, clear, recordReply, CancelableTaskTracker.setStage, known, sound.faultless,
      sound.caller]
  | inr raised =>
    apply sound.one id legal.1
    · simp [view, runTask, unlessSet, raised, CancelableTaskTracker.setStage, queue, last]
    · intro other apart
      simp [view, runTask, unlessSet, raised, CancelableTaskTracker.setStage, queue, apart, apart.symm]
    all_goals simp [runTask, unlessSet, raised, CancelableTaskTracker.setStage, known, sound.faultless, sound.caller]

/-- What `settle` does to the views, where the flag is there and the map holds the id while there is a map. -/
theorem view_settle (held : s.flag id = .clear ∨ s.flag id = .raised)
    (counted : s.taskFlags.count id = if s.alive then 1 else 0) (other : Nat) :
    (s.settle id).view other =
      if other = id then
        { s.view id with
          stage := .done
          flag := .deleted
          tracked := 0
          settled := (s.view id).settled + 1
          erased := (s.view id).erased + if s.alive = true then 1 else 0 }
      else s.view other := by
  cases alive : s.alive with
  | true =>
    rw [alive, if_pos rfl] at counted
    have member : id ∈ s.taskFlags := List.count_pos_iff.mp (by omega)
    split
    next same =>
      subst same
      simp [view, settle, untrack, alive, deleteFlag, held, setFlag, CancelableTaskTracker.setStage, counted, member]
    next apart =>
      simp [view, settle, untrack, alive, deleteFlag, held, setFlag, CancelableTaskTracker.setStage, member, apart,
        Ne.symm apart]
  | false =>
    rw [alive, if_neg Bool.false_ne_true] at counted
    split
    next same =>
      subst same
      simp [view, settle, untrack, alive, deleteFlag, held, setFlag, CancelableTaskTracker.setStage, counted]
    next apart =>
      simp [view, settle, untrack, alive, deleteFlag, held, setFlag, CancelableTaskTracker.setStage, apart,
        Ne.symm apart]

theorem settle_frame (held : s.flag id = .clear ∨ s.flag id = .raised) :
    (s.settle id).alive = s.alive ∧ (s.settle id).nextId = s.nextId ∧ (s.settle id).posting = s.posting ∧
      (s.settle id).fault = s.fault := by
  cases alive : s.alive <;>
    simp [settle, untrack, alive, deleteFlag, held, setFlag, CancelableTaskTracker.setStage]

section
variable (sound : s.Sound)
include sound

/-- The `untrack` step, from a state whose queue or stack has lost the closure that runs it. -/
theorem Sound.settle {base : CancelableTaskTracker} (settling : Legal.Settling (s.stage id))
    (self : base.view id = { s.view id with queuedUntrack := 0, framed := 0 })
    (others : ∀ other, other ≠ id → base.view other = s.view other) (alive : base.alive = s.alive)
    (next : base.nextId = s.nextId) (caller : base.posting = s.posting) (faultless : base.fault = s.fault) :
    (base.settle id).Sound := by
  have live : (s.stage id).live = true := by
    rcases settling with stage | stage | ⟨count, stage⟩ <;> rw [stage] <;> rfl
  have known := sound.known live
  have flag : base.flag id = s.flag id := congrArg View.flag self
  have held : base.flag id = .clear ∨ base.flag id = .raised := by
    rw [flag]
    exact sound.live_flag live
  have counted : base.taskFlags.count id = if base.alive then 1 else 0 := by
    rw [alive]
    exact (congrArg View.tracked self).trans ((sound.legal id).tracked_of_settling settling)
  have once : (if base.alive = true then 1 else 0) ≤ 1 := by split <;> decide
  have frame := settle_frame held
  apply sound.one id ((sound.legal id).settle settling once)
  · rw [view_settle held counted, if_pos rfl, self]
  · intro other apart
    rw [view_settle held counted, if_neg apart, others other apart]
  · rw [frame.1, alive]
  · rw [frame.2.1, next]
    exact known
  · exact Nat.le_of_eq (frame.2.1.trans next).symm
  · rw [frame.1, frame.2.2.1, alive, caller]
    exact sound.caller
  · rw [frame.2.2.2, faultless]
    exact sound.faultless

theorem Sound.untracks_zero (other : s.stage id ≠ .untrackQueued) :
    s.originQueue.count (.untrack id) = 0 := (sound.legal id).queuedUntrack.trans (if_neg other)

theorem Sound.replies_zero (other : s.stage id ≠ .replyQueued) :
    s.originQueue.count (.reply id) = 0 := (sound.legal id).queuedReply.trans (if_neg other)

theorem Sound.frames_zero (other : s.stage id ≠ .replying) : s.frames.count id = 0 :=
  (sound.legal id).framed.trans (if_neg other)

theorem Sound.settleCallback {copies : Nat} (held : s.stage id = .callback copies) :
    (s.settle id).Sound := by
  have queued : s.originQueue.count (.untrack id) = 0 := sound.untracks_zero (by rw [held]; exact Stage.noConfusion)
  have framed : s.frames.count id = 0 := sound.frames_zero (by rw [held]; exact Stage.noConfusion)
  have self : s.view id = { s.view id with queuedUntrack := 0, framed := 0 } := by
    simp [view, queued, framed]
  exact sound.settle (.inr (.inr ⟨copies, held⟩)) self (fun _ _ => rfl) rfl rfl rfl rfl

theorem Sound.runUntrack (queue : s.originQueue = .untrack id :: rest) :
    ({ s with originQueue := rest }.settle id).Sound := by
  obtain ⟨queued, last⟩ := sound.stage_of_untrack queue
  have framed : s.frames.count id = 0 := sound.frames_zero (by rw [queued]; exact Stage.noConfusion)
  apply sound.settle (.inr (.inl queued))
  · simp [view, queue, last, framed]
  · intro other apart
    simp [view, queue, apart.symm]
  all_goals rfl

theorem Sound.endReply {frames : List Nat} (stack : s.frames = id :: frames) :
    ({ s with frames := frames }.settle id).Sound := by
  obtain ⟨replying, last⟩ := sound.stage_of_frame stack
  have queued : s.originQueue.count (.untrack id) = 0 := sound.untracks_zero (by rw [replying]; exact Stage.noConfusion)
  apply sound.settle (.inl replying)
  · simp [view, last, queued]
  · intro other apart
    simp [view, stack, apart.symm]
  all_goals rfl

theorem Sound.dropReply (queue : s.originQueue = .reply id :: rest) :
    ({ s with originQueue := rest }.setStage id .lost).Sound := by
  obtain ⟨queued, last⟩ := sound.stage_of_reply queue
  have known := sound.known (show (s.stage id).live = true by rw [queued]; rfl)
  have untracks : s.originQueue.count (.untrack id) = 0 := sound.untracks_zero (by rw [queued]; exact Stage.noConfusion)
  apply sound.one id ((sound.legal id).lose_queued (.inl queued))
  · simp [queue] at untracks
    simp [view, CancelableTaskTracker.setStage, last, untracks]
  · intro other apart
    simp [view, CancelableTaskTracker.setStage, queue, apart, apart.symm]
  all_goals simp [CancelableTaskTracker.setStage, known, sound.faultless, sound.caller]

theorem Sound.dropUntrack (queue : s.originQueue = .untrack id :: rest) :
    ({ s with originQueue := rest }.setStage id .lost).Sound := by
  obtain ⟨queued, last⟩ := sound.stage_of_untrack queue
  have known := sound.known (show (s.stage id).live = true by rw [queued]; rfl)
  have replies : s.originQueue.count (.reply id) = 0 := sound.replies_zero (by rw [queued]; exact Stage.noConfusion)
  apply sound.one id ((sound.legal id).lose_queued (.inr queued))
  · simp [queue] at replies
    simp [view, CancelableTaskTracker.setStage, last, replies]
  · intro other apart
    simp [view, CancelableTaskTracker.setStage, queue, apart, apart.symm]
  all_goals simp [CancelableTaskTracker.setStage, known, sound.faultless, sound.caller]

end

end Queue

theorem Sound.isCanceled (sound : s.Sound) {copies : Nat} (held : s.stage id = .callback copies) :
    s.unlessSet id (fun asked => asked) = s := by
  have flag := sound.live_flag (show (s.stage id).live = true by rw [held]; rfl)
  unfold unlessSet
  cases flag with
  | inl clear => rw [if_pos clear]
  | inr raised => rw [if_neg (by rw [raised]; exact Flag.noConfusion), if_pos raised]

end CancelableTaskTracker

open CancelableTaskTracker

theorem step_sound {s t : CancelableTaskTracker} {action : Action} (sound : s.Sound)
    (moved : step s action = some t) : t.Sound := by
  cases action with
  | postTaskAndReply accepted =>
    simp only [step, Option.ite_none_right_eq_some, Bool.and_eq_true, Option.some.injEq] at moved
    obtain ⟨⟨alive, free⟩, rfl⟩ := moved
    exact sound.post alive free accepted
  | track =>
    simp only [step] at moved
    split at moved
    next id posting =>
      cases moved
      exact sound.track posting
    next => cases moved
  | newTrackedTaskId =>
    simp only [step, Option.ite_none_right_eq_some, Bool.and_eq_true, Option.some.injEq] at moved
    obtain ⟨⟨alive, free⟩, rfl⟩ := moved
    exact sound.newTrackedTaskId alive free
  | tryCancel id =>
    simp only [step, Option.ite_none_right_eq_some, Bool.and_eq_true, Option.some.injEq] at moved
    obtain ⟨-, rfl⟩ := moved
    split
    next member => exact sound.raise (sound.live_of_tracked member)
    next => exact sound
  | tryCancelAll =>
    simp only [step, Option.ite_none_right_eq_some, Bool.and_eq_true, Option.some.injEq] at moved
    obtain ⟨-, rfl⟩ := moved
    exact sound.raiseAll _ fun id member => sound.live_of_tracked member
  | destroy =>
    simp only [step, Option.ite_none_right_eq_some, Bool.and_eq_true, Option.some.injEq] at moved
    obtain ⟨⟨-, free⟩, rfl⟩ := moved
    have raised := sound.raiseAll _ fun id member => sound.live_of_tracked member
    exact raised.destroy ((raiseAll_posting s.taskFlags s).trans (posting_of_free free))
  | startTask id =>
    obtain ⟨posted, rfl⟩ := Library.of_guarded moved
    exact sound.startTask posted
  | endTask id accepted =>
    obtain ⟨running, rfl⟩ := Library.of_guarded moved
    split
    next => exact sound.queueReply running
    next =>
      exact sound.setStage (sound.known (by rw [running]; rfl)) ((sound.legal id).lose (.inr (.inl running)))
  | dropTask id =>
    obtain ⟨posted, rfl⟩ := Library.of_guarded moved
    exact sound.setStage (sound.known (by rw [posted]; rfl)) ((sound.legal id).lose (.inl posted))
  | copyCallback id =>
    simp only [step] at moved
    split at moved
    next copies held =>
      cases moved
      exact sound.setStage (sound.known (by rw [held]; rfl)) ((sound.legal id).copy held (Nat.succ_ne_zero copies))
    next => cases moved
  | isCanceled id =>
    simp only [step] at moved
    split at moved
    next copies held =>
      cases moved
      rwa [sound.isCanceled held]
    next => cases moved
  | deleteCallback id onOrigin accepted =>
    simp only [step] at moved
    split at moved
    next copies held =>
      have known : id < s.nextId := sound.known (by rw [held]; rfl)
      obtain ⟨-, moved⟩ := Option.ite_none_left_eq_some.mp moved
      split at moved
      next last =>
        cases moved
        unfold deleteLast
        split
        next => exact sound.settleCallback held
        next =>
          split
          next => exact sound.queueUntrack held
          next => exact sound.setStage known ((sound.legal id).lose (.inr (.inr ⟨_, held⟩)))
      next more =>
        cases moved
        exact sound.setStage known ((sound.legal id).copy held more)
    next => cases moved
  | runOrigin =>
    simp only [step] at moved
    split at moved
    next task rest queue =>
      obtain ⟨free, moved⟩ := Option.ite_none_right_eq_some.mp moved
      cases moved
      cases task with
      | reply id => exact sound.runReply free queue
      | untrack id => exact sound.runUntrack queue
    next => cases moved
  | dropOrigin =>
    simp only [step] at moved
    split at moved
    next task rest queue =>
      obtain ⟨-, moved⟩ := Option.ite_none_right_eq_some.mp moved
      cases moved
      cases task with
      | reply id => exact sound.dropReply queue
      | untrack id => exact sound.dropUntrack queue
    next => cases moved
  | endReply =>
    simp only [step] at moved
    split at moved
    next id rest stack =>
      obtain ⟨-, moved⟩ := Option.ite_none_right_eq_some.mp moved
      cases moved
      exact sound.endReply stack
    next => cases moved

/-- The states of all runs. -/
abbrev Reachable : CancelableTaskTracker → Prop := Reaches step (fun _ _ => True) {}

theorem Reachable.sound {s : CancelableTaskTracker} (reachable : Reachable s) : s.Sound :=
  Reaches.invariant Sound sound_initial (fun _ _ _ sound _ moved => step_sound sound moved) reachable
end Libchrome.Base.Task
