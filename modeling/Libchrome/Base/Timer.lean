import Libchrome.Library.Machine
import Mathlib.Data.List.Nodup

/-!
# `Timer`

One-shot and repeating timers (`timer.cc`), with the task runner that their tasks are posted to. Each call reads the
clock where the source does: the time that a task is posted at comes before the time that the timer records for it.
-/

namespace Libchrome.Base

open Library

/-- A `BaseTimerTaskInternal` in the queue of the task runner. -/
structure BaseTimerTaskInternal where
  id : Nat
  /-- Whether `timer_` still points to the timer. -/
  timer_ : Bool
  /-- The task runner does not run the task before this time. -/
  due : Int
  deriving DecidableEq, Repr

/-- A `Timer`; its task runner takes tasks of no other. Closures are numbered, and null times are zero. -/
structure Timer where
  scheduled_task_ : Option Nat := none
  delay_ : Int := 0
  user_task_ : Option Nat := none
  scheduled_run_time_ : Int := 0
  desired_run_time_ : Int := 0
  is_repeating_ : Bool
  retain_user_task_ : Bool
  is_running_ : Bool := false
  deriving DecidableEq, Repr

namespace Timer

def new (retain_user_task is_repeating : Bool) : Timer where
  is_repeating_ := is_repeating
  retain_user_task_ := retain_user_task

/-- The constructor with retained task info. -/
def newWithTask (delay : Int) (user_task : Nat) (is_repeating : Bool) : Timer where
  delay_ := delay
  user_task_ := some user_task
  is_repeating_ := is_repeating
  retain_user_task_ := true

/-- What happened to a timer, as its user sees it. -/
inductive Entry where
  | started (called : Nat) (delay : Int) (user_task : Option Nat)
  | stopped
  | destroyed
  | ran (user_task : Option Nat) (time : Nat)
  deriving DecidableEq, Repr

/-- The times of one step: when it starts, the timer's reading of the clock, the task runner's when a task is posted,
and the timer's after that. -/
structure Readings where
  called : Nat
  now : Nat
  posted : Nat
  read : Nat
  deriving DecidableEq, Repr

/-- The clock does not go back. -/
def Readings.Follow (clock : Nat) (readings : Readings) : Prop :=
  clock ≤ readings.called ∧ readings.called ≤ readings.now ∧ readings.now ≤ readings.posted ∧
    readings.posted ≤ readings.read

instance (clock : Nat) (readings : Readings) : Decidable (readings.Follow clock) :=
  inferInstanceAs (Decidable (_ ∧ _))

/-- A timer with the queue of its task runner. -/
structure Setting where
  timer : Timer
  alive : Bool := true
  tasks : List BaseTimerTaskInternal := []
  /-- The next task to be allocated. -/
  next : Nat := 0
  clock : Nat := 0
  /-- What happened, the latest first. -/
  log : List Entry := []
  deriving DecidableEq, Repr

namespace Setting

def setTaskInfo (delay : Int) (user_task : Nat) (setting : Setting) : Setting :=
  { setting with timer := { setting.timer with delay_ := delay, user_task_ := some user_task } }

def stop (setting : Setting) : Setting :=
  { setting with
    timer := { setting.timer with
      is_running_ := false
      user_task_ := if setting.timer.retain_user_task_ then setting.timer.user_task_ else none } }

def postNewScheduledTask (delay : Int) (readings : Readings) (setting : Setting) : Setting :=
  let due := if delay > 0 then readings.posted + delay else readings.posted
  let run_time := if delay > 0 then readings.read + delay else 0
  { setting with
    tasks := setting.tasks ++ [⟨setting.next, true, due⟩]
    next := setting.next + 1
    timer := { setting.timer with
      is_running_ := true
      scheduled_task_ := some setting.next
      scheduled_run_time_ := run_time
      desired_run_time_ := run_time } }

/-- `Abandon`, on one of the tasks. -/
def abandon (id : Nat) (tasks : List BaseTimerTaskInternal) : List BaseTimerTaskInternal :=
  tasks.map fun task => if task.id = id then { task with timer_ := false } else task

def abandonScheduledTask (setting : Setting) : Setting :=
  match setting.timer.scheduled_task_ with
  | none => setting
  | some id =>
    { setting with
      tasks := abandon id setting.tasks
      timer := { setting.timer with scheduled_task_ := none } }

def stopAndAbandon (setting : Setting) : Setting :=
  setting.stop.abandonScheduledTask

def reset (readings : Readings) (setting : Setting) : Setting :=
  match setting.timer.scheduled_task_ with
  | none => setting.postNewScheduledTask setting.timer.delay_ readings
  | some _ =>
    let desired_run_time : Int := if setting.timer.delay_ > 0 then readings.now + setting.timer.delay_ else 0
    let desired := { setting with timer := { setting.timer with desired_run_time_ := desired_run_time } }
    if desired_run_time ≥ setting.timer.scheduled_run_time_ then
      { desired with timer := { desired.timer with is_running_ := true } }
    else desired.abandonScheduledTask.postNewScheduledTask setting.timer.delay_ readings

def start (delay : Int) (user_task : Nat) (readings : Readings) (setting : Setting) : Setting :=
  (setting.setTaskInfo delay user_task).reset readings

/-- `RunScheduledTask`. The user task runs at its end, and what it calls comes after. -/
def runScheduledTask (readings : Readings) (setting : Setting) : Setting :=
  let timer := setting.timer
  if ¬timer.is_running_ then setting
  else if timer.desired_run_time_ > timer.scheduled_run_time_ ∧ timer.desired_run_time_ > readings.now then
    setting.postNewScheduledTask (timer.desired_run_time_ - readings.now) readings
  else
    let task := timer.user_task_
    let rest := if timer.is_repeating_ then setting.postNewScheduledTask timer.delay_ readings else setting.stop
    { rest with log := .ran task readings.read :: setting.log }

/-- `BaseTimerTaskInternal::Run`; the task runner deletes the task. -/
def run (task : BaseTimerTaskInternal) (readings : Readings) (setting : Setting) : Setting :=
  let left := { setting with tasks := setting.tasks.filter (·.id ≠ task.id) }
  if ¬task.timer_ then left
  else { left with timer := { left.timer with scheduled_task_ := none } }.runScheduledTask readings

/-- `~BaseTimerTaskInternal`, on a task that did not run. -/
def delete (task : BaseTimerTaskInternal) (setting : Setting) : Setting :=
  let left := if task.timer_ then { setting.stopAndAbandon with log := .stopped :: setting.log } else setting
  { left with tasks := left.tasks.filter (·.id ≠ task.id) }

end Setting

/-- What the user does, also from inside the user task, and what the task runner does. -/
inductive Event where
  | start (delay : Int) (user_task : Nat) (readings : Readings)
  | stop
  | reset (readings : Readings)
  | destroy
  | run (id : Nat) (readings : Readings)
  | delete (id : Nat)
  deriving DecidableEq, Repr

open Setting in
/-- A step; `none` where it cannot be taken. `Reset` needs a user task, and no delayed task is run before its delay. -/
def step (setting : Setting) : Event → Option Setting
  | .start delay user_task readings =>
    if setting.alive ∧ readings.Follow setting.clock then
      some { setting.start delay user_task readings with
        clock := readings.read
        log := .started readings.called delay (some user_task) :: setting.log }
    else none
  | .stop => if setting.alive then some { setting.stop with log := .stopped :: setting.log } else none
  | .reset readings =>
    if setting.alive ∧ readings.Follow setting.clock ∧ setting.timer.user_task_ ≠ none then
      some { setting.reset readings with
        clock := readings.read
        log := .started readings.called setting.timer.delay_ setting.timer.user_task_ :: setting.log }
    else none
  | .destroy =>
    if setting.alive then some { setting.stopAndAbandon with alive := false, log := .destroyed :: setting.log }
    else none
  | .run id readings =>
    match setting.tasks.find? (·.id = id) with
    | none => none
    | some task =>
      if readings.Follow setting.clock ∧ task.due ≤ readings.called then
        some { setting.run task readings with clock := readings.read }
      else none
  | .delete id => (setting.tasks.find? (·.id = id)).map fun task => setting.delete task

/-- The last call of the user. -/
def lastCall : List Entry → Option Entry
  | [] => none
  | .ran _ _ :: log => lastCall log
  | entry :: _ => some entry

/-- Each run of the user task follows a `Start` or `Reset` of that task, with no `Stop` or destruction since then, and
not before its delay; if the timer is one-shot, it is the first since then. -/
def Allowed (is_repeating : Bool) : List Entry → Prop
  | [] => True
  | .ran user_task time :: log =>
    (∃ called delay, lastCall log = some (.started called delay user_task) ∧ called + delay ≤ time ∧
      (is_repeating = false → log.head? = some (.started called delay user_task))) ∧ Allowed is_repeating log
  | _ :: log => Allowed is_repeating log

/-- The tasks in the queue that are not abandoned. -/
def unabandoned (tasks : List BaseTimerTaskInternal) : List Nat := (tasks.filter (·.timer_)).map (·.id)

/-- What a timer is to guarantee. -/
structure Correct (setting : Setting) : Prop where
  allowed : Allowed setting.timer.is_repeating_ setting.log
  /-- `scheduled_task_` is the only task that is not abandoned, and null when there is none. -/
  scheduled : unabandoned setting.tasks = setting.timer.scheduled_task_.toList
  running : setting.timer.is_running_ = true → setting.timer.scheduled_task_ ≠ none

theorem unabandoned_abandon (id : Nat) (tasks : List BaseTimerTaskInternal) :
    unabandoned (Setting.abandon id tasks) = (unabandoned tasks).filter (· ≠ id) := by
  induction tasks with
  | nil => rfl
  | cons task tasks ih =>
    by_cases same : task.id = id <;> by_cases pending : task.timer_ <;> simp_all [unabandoned, Setting.abandon]

theorem unabandoned_filter (id : Nat) (tasks : List BaseTimerTaskInternal) :
    unabandoned (tasks.filter (·.id ≠ id)) = (unabandoned tasks).filter (· ≠ id) := by
  induction tasks with
  | nil => rfl
  | cons task tasks ih =>
    by_cases same : task.id = id <;> by_cases pending : task.timer_ <;> simp_all [unabandoned]

namespace Setting

/-- The queue holds at most one task that points to the timer, and the timer points to it. -/
structure Pointed (setting : Setting) : Prop where
  scheduled : unabandoned setting.tasks = setting.timer.scheduled_task_.toList
  fresh : ∀ task ∈ setting.tasks, task.id < setting.next
  distinct : (setting.tasks.map (·.id)).Nodup
  time : 0 ≤ setting.timer.scheduled_run_time_

/-- The scheduled task does not run the user task before `limit`, unless the clock is past it. -/
def Armed (limit : Int) (clock : Nat) (setting : Setting) : Prop :=
  ∃ task ∈ setting.tasks, setting.timer.scheduled_task_ = some task.id ∧
    if setting.timer.desired_run_time_ > setting.timer.scheduled_run_time_ then limit ≤ setting.timer.desired_run_time_
    else limit ≤ task.due ∨ limit ≤ clock

/-- A call that moves the run time to exactly the one recorded for the scheduled task finds that the task runner does
not run that task before the delay of this call. -/
def Untied (delay : Int) (readings : Readings) (setting : Setting) : Prop :=
  ∀ task ∈ setting.tasks, setting.timer.scheduled_task_ = some task.id → 0 < delay →
    readings.now + delay = setting.timer.scheduled_run_time_ → readings.called + delay ≤ task.due

variable {setting : Setting} {delay limit : Int} {readings : Readings} {task : BaseTimerTaskInternal}

section
variable (pointed : setting.Pointed)
include pointed

theorem Pointed.exists_task {id : Nat}
    (scheduled : setting.timer.scheduled_task_ = some id) :
    ∃ task ∈ setting.tasks, task.timer_ = true ∧ task.id = id := by
  have listed : id ∈ unabandoned setting.tasks := by simp [pointed.scheduled, scheduled]
  simpa [unabandoned, and_assoc] using listed

theorem Pointed.timer_iff (queued : task ∈ setting.tasks) :
    task.timer_ = true ↔ setting.timer.scheduled_task_ = some task.id := by
  constructor
  · intro pending
    have listed : task.id ∈ unabandoned setting.tasks := by
      simpa [unabandoned] using ⟨task, ⟨queued, pending⟩, rfl⟩
    simpa [pointed.scheduled] using listed
  · intro scheduled
    obtain ⟨other, otherQueued, pending, same⟩ := pointed.exists_task scheduled
    have equal : other = task := List.inj_on_of_nodup_map pointed.distinct otherQueued queued same
    exact equal ▸ pending

theorem Pointed.post (idle : setting.timer.scheduled_task_ = none) :
    (setting.postNewScheduledTask delay readings).Pointed where
  scheduled := by
    have empty : unabandoned setting.tasks = [] := by simp [pointed.scheduled, idle]
    simpa [postNewScheduledTask, unabandoned] using empty
  fresh := by
    intro task queued
    rcases List.mem_append.mp queued with queued | queued
    · exact Nat.lt_succ_of_lt (pointed.fresh task queued)
    · rw [List.mem_singleton.mp queued]
      exact Nat.lt_succ_self setting.next
  distinct := by
    have fresh : ∀ task ∈ setting.tasks, ¬task.id = setting.next := fun task queued =>
      Nat.ne_of_lt (pointed.fresh task queued)
    simpa [postNewScheduledTask, List.nodup_append, pointed.distinct] using fresh
  time := by
    simp only [postNewScheduledTask]
    split <;> omega

theorem Pointed.abandonScheduledTask : setting.abandonScheduledTask.Pointed := by
  cases scheduled : setting.timer.scheduled_task_ with
  | none => simpa only [Setting.abandonScheduledTask, scheduled] using pointed
  | some id =>
    have ids : (abandon id setting.tasks).map (·.id) = setting.tasks.map (·.id) := by
      simp only [abandon, List.map_map]
      refine List.map_congr_left fun task _ => ?_
      by_cases same : task.id = id <;> simp [same]
    simp only [Setting.abandonScheduledTask, scheduled]
    exact {
      scheduled := by simp [unabandoned_abandon, pointed.scheduled, scheduled]
      fresh := by
        intro task queued
        obtain ⟨task, before, rfl⟩ := List.mem_map.mp queued
        have fresh := pointed.fresh task before
        split <;> exact fresh
      distinct := ids ▸ pointed.distinct
      time := pointed.time }

end

@[simp] theorem abandonScheduledTask_scheduled_task_ : setting.abandonScheduledTask.timer.scheduled_task_ = none := by
  cases scheduled : setting.timer.scheduled_task_ <;> simp [abandonScheduledTask, scheduled]

/-- The task runner drops a task, and the timer forgets it if it was the scheduled one. -/
theorem Pointed.drop (pointed : setting.Pointed) (id : Nat) (scheduled : Option Nat)
    (left : scheduled.toList = setting.timer.scheduled_task_.toList.filter (· ≠ id)) :
    Pointed { setting with
      tasks := setting.tasks.filter (·.id ≠ id)
      timer := { setting.timer with scheduled_task_ := scheduled } } where
  scheduled := by simp only [unabandoned_filter, pointed.scheduled, left]
  fresh := fun task queued => pointed.fresh task (List.mem_of_mem_filter queued)
  distinct := pointed.distinct.sublist (List.filter_sublist.map _)
  time := pointed.time

theorem post_armed (clock : Nat)
    (early : limit ≤ (if delay > 0 then readings.posted + delay else readings.posted) ∨ limit ≤ clock) :
    (setting.postNewScheduledTask delay readings).Armed limit clock := by
  refine ⟨⟨setting.next, true, if delay > 0 then readings.posted + delay else readings.posted⟩, ?_, rfl, ?_⟩
  · exact List.mem_append_right _ (List.mem_singleton_self _)
  · rw [if_neg (by simp [postNewScheduledTask])]
    exact early

/-- With a scheduled task, `Reset` either keeps the task or abandons it for a new one. -/
theorem reset_of_scheduled (readings : Readings) {id : Nat} (scheduled : setting.timer.scheduled_task_ = some id) :
    ∃ run_time : Int, run_time = (if setting.timer.delay_ > 0 then readings.now + setting.timer.delay_ else 0) ∧
    ((setting.timer.scheduled_run_time_ ≤ run_time ∧ setting.reset readings =
        { setting with timer := { setting.timer with desired_run_time_ := run_time, is_running_ := true } }) ∨
      setting.reset readings = ({ setting with
        timer := { setting.timer with desired_run_time_ := run_time } }).abandonScheduledTask.postNewScheduledTask
          setting.timer.delay_ readings) := by
  refine ⟨_, rfl, ?_⟩
  simp only [reset, scheduled]
  generalize (if setting.timer.delay_ > 0 then readings.now + setting.timer.delay_ else 0 : Int) = run_time
  by_cases reused : run_time ≥ setting.timer.scheduled_run_time_
  · exact .inl ⟨reused, if_pos reused⟩
  · exact .inr (if_neg reused)

theorem reset_frame (setting : Setting) (readings : Readings) : (setting.reset readings).alive = setting.alive ∧
    (setting.reset readings).timer.user_task_ = setting.timer.user_task_ ∧
    (setting.reset readings).timer.is_repeating_ = setting.timer.is_repeating_ := by
  cases scheduled : setting.timer.scheduled_task_ with
  | none => simp [reset, scheduled, postNewScheduledTask]
  | some id =>
    obtain ⟨run_time, _, ⟨_, result⟩ | result⟩ := reset_of_scheduled readings scheduled
    · simp [result]
    · simp [result, abandonScheduledTask, scheduled, postNewScheduledTask]

theorem Pointed.reset (pointed : setting.Pointed) : (setting.reset readings).Pointed := by
  cases scheduled : setting.timer.scheduled_task_ with
  | none =>
    simp only [Setting.reset, scheduled]
    exact pointed.post scheduled
  | some id =>
    obtain ⟨run_time, _, ⟨_, result⟩ | result⟩ := reset_of_scheduled readings scheduled
    · exact result ▸ ⟨pointed.scheduled, pointed.fresh, pointed.distinct, pointed.time⟩
    · have desired : Pointed { setting with timer := { setting.timer with desired_run_time_ := run_time } } :=
        ⟨pointed.scheduled, pointed.fresh, pointed.distinct, pointed.time⟩
      exact result ▸ desired.abandonScheduledTask.post abandonScheduledTask_scheduled_task_

theorem reset_armed (pointed : setting.Pointed) (follow : readings.Follow setting.clock)
    (untied : setting.Untied setting.timer.delay_ readings) :
    (setting.reset readings).Armed (readings.called + setting.timer.delay_) readings.read := by
  obtain ⟨_, reads, posts, records⟩ := follow
  have early : readings.called + setting.timer.delay_ ≤
      (if setting.timer.delay_ > 0 then readings.posted + setting.timer.delay_ else readings.posted) ∨
      readings.called + setting.timer.delay_ ≤ readings.read := by
    split <;> omega
  cases scheduled : setting.timer.scheduled_task_ with
  | none =>
    simp only [reset, scheduled]
    exact post_armed readings.read early
  | some id =>
    obtain ⟨run_time, time, ⟨reused, result⟩ | result⟩ := reset_of_scheduled readings scheduled
    · obtain ⟨task, queued, _, same⟩ := pointed.exists_task scheduled
      have untied := untied task queued (same ▸ scheduled)
      have positive := pointed.time
      refine result ▸ ⟨task, queued, same ▸ scheduled, ?_⟩
      -- Where the two times are equal, the task runner alone keeps the task from running early.
      by_cases delayed : setting.timer.delay_ > 0 <;> simp only [delayed, if_true, if_false] at time ⊢ <;>
        split <;> omega
    · exact result ▸ post_armed readings.read early

/-- The invariant: while the timer runs, its last call waits in the scheduled task. -/
structure Sound (setting : Setting) : Prop where
  allowed : Allowed setting.timer.is_repeating_ setting.log
  pointed : setting.Pointed
  gone : setting.alive = false → setting.timer.is_running_ = false ∧ setting.timer.scheduled_task_ = none
  armed : setting.timer.is_running_ = true → ∃ called delay,
    lastCall setting.log = some (.started called delay setting.timer.user_task_) ∧
    (setting.timer.is_repeating_ = false → setting.log.head? = some (.started called delay setting.timer.user_task_)) ∧
    setting.Armed (called + delay) setting.clock

theorem Sound.correct (sound : setting.Sound) : Correct setting where
  allowed := sound.allowed
  scheduled := sound.pointed.scheduled
  running := by
    intro running
    obtain ⟨_, _, _, _, task, _, scheduled, _⟩ := sound.armed running
    exact Option.ne_none_iff_exists'.mpr ⟨task.id, scheduled⟩

theorem reset_sound (allowed : Allowed setting.timer.is_repeating_ setting.log) (pointed : setting.Pointed)
    (alive : setting.alive = true) (follow : readings.Follow setting.clock)
    (untied : setting.Untied setting.timer.delay_ readings) :
    Sound { setting.reset readings with
      clock := readings.read
      log := .started readings.called setting.timer.delay_ setting.timer.user_task_ :: setting.log } := by
  obtain ⟨sameAlive, sameTask, sameMode⟩ := reset_frame setting readings
  have reset : (setting.reset readings).Pointed := pointed.reset
  exact {
    allowed := by rw [sameMode]; exact allowed
    pointed := ⟨reset.scheduled, reset.fresh, reset.distinct, reset.time⟩
    gone := fun gone => absurd (sameAlive.symm.trans gone) (by simp [alive])
    armed := fun _ => ⟨readings.called, setting.timer.delay_, by simp [lastCall, sameTask], by simp [sameTask],
      reset_armed pointed follow untied⟩ }

theorem Sound.start (sound : setting.Sound) (alive : setting.alive = true) (follow : readings.Follow setting.clock)
    (untied : setting.Untied delay readings) (user_task : Nat) :
    Sound { setting.start delay user_task readings with
      clock := readings.read
      log := .started readings.called delay (some user_task) :: setting.log } :=
  have informed : (setting.setTaskInfo delay user_task).Pointed :=
    ⟨sound.pointed.scheduled, sound.pointed.fresh, sound.pointed.distinct, sound.pointed.time⟩
  reset_sound sound.allowed informed alive follow untied

theorem Sound.stop (sound : setting.Sound) : Sound { setting.stop with log := .stopped :: setting.log } where
  allowed := sound.allowed
  pointed := ⟨sound.pointed.scheduled, sound.pointed.fresh, sound.pointed.distinct, sound.pointed.time⟩
  gone := fun gone => ⟨rfl, (sound.gone gone).2⟩
  armed := fun running => absurd running Bool.false_ne_true

theorem stopAndAbandon_frame (setting : Setting) : setting.stopAndAbandon.timer.is_running_ = false ∧
    setting.stopAndAbandon.timer.is_repeating_ = setting.timer.is_repeating_ ∧
    setting.stopAndAbandon.timer.scheduled_task_ = none := by
  cases scheduled : setting.timer.scheduled_task_ <;>
    simp [stopAndAbandon, abandonScheduledTask, Setting.stop, scheduled]

theorem Pointed.stopAndAbandon (pointed : setting.Pointed) : setting.stopAndAbandon.Pointed :=
  have stopped : setting.stop.Pointed := ⟨pointed.scheduled, pointed.fresh, pointed.distinct, pointed.time⟩
  stopped.abandonScheduledTask

theorem Sound.destroy (sound : setting.Sound) :
    Sound { setting.stopAndAbandon with alive := false, log := .destroyed :: setting.log } := by
  obtain ⟨stopped, sameMode, forgotten⟩ := stopAndAbandon_frame setting
  have pointed := sound.pointed.stopAndAbandon
  exact {
    allowed := by rw [sameMode]; exact sound.allowed
    pointed := ⟨pointed.scheduled, pointed.fresh, pointed.distinct, pointed.time⟩
    gone := fun _ => ⟨stopped, forgotten⟩
    armed := fun running => absurd (stopped.symm.trans running) Bool.false_ne_true }

/-- An abandoned task leaves the queue. -/
theorem Sound.drop (sound : setting.Sound) {clock : Nat} (later : setting.clock ≤ clock) (queued : task ∈ setting.tasks)
    (abandoned : task.timer_ = false) :
    Sound { setting with tasks := setting.tasks.filter (·.id ≠ task.id), clock := clock } := by
  have other : setting.timer.scheduled_task_ ≠ some task.id := by
    rw [Ne, ← sound.pointed.timer_iff queued, abandoned]
    exact Bool.false_ne_true
  have pointed := sound.pointed.drop task.id setting.timer.scheduled_task_ <| by
    cases scheduled : setting.timer.scheduled_task_ with
    | none => rfl
    | some id => simp_all
  exact {
    allowed := sound.allowed
    pointed := ⟨pointed.scheduled, pointed.fresh, pointed.distinct, pointed.time⟩
    gone := sound.gone
    armed := by
      intro running
      obtain ⟨called, delay, last, first, next, nextQueued, scheduled, early⟩ := sound.armed running
      have kept : next.id ≠ task.id := fun same => other (same ▸ scheduled)
      refine ⟨called, delay, last, first, next, List.mem_filter.mpr ⟨nextQueued, by simpa using kept⟩, scheduled, ?_⟩
      split at early
      next moved => exact (if_pos moved).symm ▸ early
      next still => exact (if_neg still).symm ▸ early.imp_right fun past => Int.le_trans past (Int.ofNat_le.mpr later) }

theorem Sound.delete (sound : setting.Sound) (queued : task ∈ setting.tasks) : (setting.delete task).Sound := by
  by_cases pending : task.timer_ = true
  · obtain ⟨stopped, sameMode, forgotten⟩ := stopAndAbandon_frame setting
    have pointed := sound.pointed.stopAndAbandon.drop task.id none (by simp [forgotten])
    simp only [Setting.delete, if_pos pending]
    exact {
      allowed := by rw [sameMode]; exact sound.allowed
      pointed := ⟨by rw [forgotten]; exact pointed.scheduled, pointed.fresh, pointed.distinct, pointed.time⟩
      gone := fun _ => ⟨stopped, forgotten⟩
      armed := fun running => absurd (stopped.symm.trans running) Bool.false_ne_true }
  · simp only [Setting.delete, if_neg pending]
    exact sound.drop (Nat.le_refl _) queued (by simpa using pending)

theorem runScheduledTask_sound (allowed : Allowed setting.timer.is_repeating_ setting.log) (pointed : setting.Pointed)
    (idle : setting.timer.scheduled_task_ = none) (alive : setting.alive = true)
    (follow : readings.Follow setting.clock)
    (armed : setting.timer.is_running_ = true → ∃ called delay,
      lastCall setting.log = some (.started called delay setting.timer.user_task_) ∧
      (setting.timer.is_repeating_ = false →
        setting.log.head? = some (.started called delay setting.timer.user_task_)) ∧
      if setting.timer.desired_run_time_ > setting.timer.scheduled_run_time_ then
        called + delay ≤ setting.timer.desired_run_time_
      else called + delay ≤ readings.called) :
    Sound { setting.runScheduledTask readings with clock := readings.read } := by
  obtain ⟨_, reads, posts, records⟩ := follow
  have gone {condition : Prop} (gone : setting.alive = false) : condition := absurd (alive.symm.trans gone) (by simp)
  by_cases running : setting.timer.is_running_ = true
  · obtain ⟨called, delay, last, first, early⟩ := armed running
    by_cases later : setting.timer.desired_run_time_ > setting.timer.scheduled_run_time_ ∧
        setting.timer.desired_run_time_ > readings.now
    · have posted : Pointed (setting.postNewScheduledTask (setting.timer.desired_run_time_ - readings.now) readings) :=
        pointed.post idle
      simp only [runScheduledTask, not_not.mpr running, if_false, if_pos later]
      rw [if_pos later.1] at early
      exact {
        allowed := allowed
        pointed := ⟨posted.scheduled, posted.fresh, posted.distinct, posted.time⟩
        gone := gone
        armed := fun _ => ⟨called, delay, last, first, post_armed readings.read (by split <;> omega)⟩ }
    · have past : called + delay ≤ readings.read := by
        split at early <;> omega
      have ran : Allowed setting.timer.is_repeating_ (.ran setting.timer.user_task_ readings.read :: setting.log) :=
        ⟨⟨called, delay, last, past, first⟩, allowed⟩
      simp only [runScheduledTask, not_not.mpr running, if_false, if_neg later]
      by_cases repeating : setting.timer.is_repeating_ = true
      · have posted : (setting.postNewScheduledTask setting.timer.delay_ readings).Pointed := pointed.post idle
        simp only [if_pos repeating]
        exact {
          allowed := ran
          pointed := ⟨posted.scheduled, posted.fresh, posted.distinct, posted.time⟩
          gone := gone
          armed := fun _ => ⟨called, delay, last, fun single => absurd (repeating.symm.trans single) (by simp),
            post_armed readings.read (.inr past)⟩ }
      · simp only [if_neg repeating]
        exact {
          allowed := ran
          pointed := ⟨pointed.scheduled, pointed.fresh, pointed.distinct, pointed.time⟩
          gone := gone
          armed := fun running => absurd running Bool.false_ne_true }
  · rw [runScheduledTask, if_pos running]
    exact {
      allowed := allowed
      pointed := ⟨pointed.scheduled, pointed.fresh, pointed.distinct, pointed.time⟩
      gone := gone
      armed := fun still => absurd still running }

theorem Sound.run (sound : setting.Sound) (queued : task ∈ setting.tasks) (follow : readings.Follow setting.clock)
    (due : task.due ≤ readings.called) : Sound { setting.run task readings with clock := readings.read } := by
  by_cases pending : task.timer_ = true
  · have scheduled := (sound.pointed.timer_iff queued).mp pending
    have alive : setting.alive = true := by
      by_contra gone
      exact absurd scheduled ((sound.gone (by simpa using gone)).2 ▸ Option.some_ne_none task.id |>.symm)
    simp only [Setting.run, not_not.mpr pending, if_false]
    have pointed := sound.pointed.drop task.id none (by simp [scheduled])
    refine runScheduledTask_sound sound.allowed pointed rfl alive follow ?_
    intro running
    obtain ⟨called, delay, last, first, waiting, waitingQueued, waits, early⟩ := sound.armed running
    have same : waiting = task := List.inj_on_of_nodup_map sound.pointed.distinct waitingQueued queued
      (Option.some.inj (waits.symm.trans scheduled))
    subst same
    refine ⟨called, delay, last, first, ?_⟩
    obtain ⟨after, _⟩ := follow
    split at early
    next moved => exact (if_pos moved).symm ▸ early
    next still =>
      rw [if_neg still]
      omega
  · rw [Setting.run, if_pos pending]
    obtain ⟨after, reads, posts, records⟩ := follow
    exact sound.drop (by omega) queued (by simpa using pending)

/-- The guard: what each call is to find. -/
def Ready (setting : Setting) : Event → Prop
  | .start delay _ readings => setting.Untied delay readings
  | .reset readings => setting.Untied setting.timer.delay_ readings
  | _ => True

instance (delay : Int) (readings : Readings) (setting : Setting) : Decidable (setting.Untied delay readings) :=
  inferInstanceAs (Decidable (∀ task ∈ setting.tasks, _))

instance (setting : Setting) : (event : Event) → Decidable (setting.Ready event)
  | .start delay _ readings => inferInstanceAs (Decidable (setting.Untied delay readings))
  | .reset readings => inferInstanceAs (Decidable (setting.Untied setting.timer.delay_ readings))
  | .stop | .destroy | .run _ _ | .delete _ => inferInstanceAs (Decidable True)

theorem Sound.step (sound : setting.Sound) {event : Event} (ready : setting.Ready event) {after : Setting}
    (moved : Timer.step setting event = some after) : after.Sound := by
  cases event with
  | start delay user_task readings =>
    obtain ⟨⟨alive, follow⟩, moved⟩ := Option.ite_none_right_eq_some.mp moved
    exact Option.some.inj moved ▸ sound.start alive follow ready user_task
  | stop =>
    obtain ⟨_, moved⟩ := Option.ite_none_right_eq_some.mp moved
    exact Option.some.inj moved ▸ sound.stop
  | reset readings =>
    obtain ⟨⟨alive, follow, _⟩, moved⟩ := Option.ite_none_right_eq_some.mp moved
    exact Option.some.inj moved ▸ reset_sound sound.allowed sound.pointed alive follow ready
  | destroy =>
    obtain ⟨_, moved⟩ := Option.ite_none_right_eq_some.mp moved
    exact Option.some.inj moved ▸ sound.destroy
  | run id readings =>
    simp only [Timer.step] at moved
    split at moved
    next => exact absurd moved.symm (Option.some_ne_none after)
    next task found =>
      obtain ⟨⟨follow, due⟩, moved⟩ := Option.ite_none_right_eq_some.mp moved
      exact Option.some.inj moved ▸ sound.run (List.mem_of_find?_eq_some found) follow due
  | delete id =>
    obtain ⟨task, found, moved⟩ := Option.map_eq_some_iff.mp moved
    exact moved ▸ sound.delete (List.mem_of_find?_eq_some found)

end Setting

open Setting

/-- A timer that was just made, with an empty queue. -/
inductive Fresh : Setting → Prop where
  | new (retain_user_task is_repeating : Bool) (clock : Nat) :
      Fresh { timer := .new retain_user_task is_repeating, clock := clock }
  | newWithTask (delay : Int) (user_task : Nat) (is_repeating : Bool) (clock : Nat) :
      Fresh { timer := .newWithTask delay user_task is_repeating, clock := clock }

theorem Fresh.sound {setting : Setting} (fresh : Fresh setting) : setting.Sound := by
  cases fresh <;> exact {
    allowed := trivial
    pointed := ⟨rfl, fun _ queued => absurd queued List.not_mem_nil, List.nodup_nil, Int.le_refl 0⟩
    gone := fun _ => ⟨rfl, rfl⟩
    armed := fun running => absurd running Bool.false_ne_true }

/-- A timer keeps its guarantees in every run in which no call moves the run time to exactly the one that is recorded
for a task due earlier. -/
theorem correct_of_ready {initial setting : Setting} (fresh : Fresh initial)
    (reached : Reaches step Ready initial setting) : Correct setting :=
  (reached.invariant Sound fresh.sound fun _ _ _ sound ready moved => sound.step ready moved).correct

/-- A one-shot timer that is reset to a later time takes a second task to span the rest of the delay. -/
theorem correct_of_ready_continued : Correct {
    timer := { is_repeating_ := false, retain_user_task_ := false, delay_ := 10, scheduled_run_time_ := 16,
               desired_run_time_ := 16 }
    next := 2
    clock := 16
    log := [.ran (some 7) 16, .started 5 10 (some 7), .started 0 10 (some 7)] } := by
  have ran : runFrom step Ready { timer := .new false false } [.start 10 7 ⟨0, 0, 0, 1⟩, .reset ⟨5, 5, 5, 5⟩,
      .run 0 ⟨10, 10, 10, 11⟩, .run 1 ⟨15, 15, 15, 16⟩] = some _ := rfl
  exact correct_of_ready (.new false false 0) (Reaches.run .start ran)

/-- A timer that posts its task at 0 and then reads 1 on the clock records 11 for a delay of 10. A reset at 1 wants the
same time and keeps the task, which the task runner runs at 10, after 9. -/
theorem not_correct_tied : ¬∀ initial setting, Fresh initial → Reaches step (fun _ _ => True) initial setting →
    Correct setting := by
  intro all
  have ran : runFrom step (fun _ _ => True) { timer := .new false false } [.start 10 7 ⟨0, 0, 0, 1⟩,
      .reset ⟨1, 1, 1, 1⟩, .run 0 ⟨10, 10, 10, 10⟩] = some _ := rfl
  have correct := all _ _ (.new false false 0) (Reaches.run .start ran)
  obtain ⟨⟨called, delay, last, early, _⟩, _⟩ := correct.allowed
  cases last
  exact absurd early (by decide)

end Timer

end Libchrome.Base
