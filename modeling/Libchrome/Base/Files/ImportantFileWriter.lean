import Libchrome.Library.Machine
import Mathlib.Data.BitVec
import Mathlib.Logic.Function.Basic

/-! `ImportantFileWriter`: files that are replaced as a whole, and writes that are put off. -/

namespace Libchrome.Base.Files.ImportantFileWriter
open Library

abbrev Bytes := List (BitVec 8)

/-! ### `WriteFileAtomically` -/

section Atomically
variable {Path : Type} [DecidableEq Path]

inductive TempFileFailure where
  | FAILED_CREATING
  | FAILED_OPENING
  | FAILED_WRITING
  | FAILED_RENAMING
  | FAILED_FLUSHING
  deriving DecidableEq, Repr

/-- The files, and what becomes of each call; `mkstemp` takes a name that no file has. -/
structure FileSystem (Path : Type) where
  files : Path → Option Bytes
  creates : Path → Option Path
  fresh : ∀ dir path, creates dir = some path → files path = none
  closes : Bool
  opens : Bool
  /-- The bytes that `File::Write` gets through; none where its first `pwrite` is an error. -/
  writes : Option Nat
  flushes : Bool
  renames : Bool

/-- What a call leaves and returns; nothing where the CHECK of `checked_cast` fails. -/
structure Outcome (Path : Type) where
  files : Path → Option Bytes
  returned : Option Bool
  logged : Option TempFileFailure

def replaceFile (files : Path → Option Bytes) (from_path to_path : Path) : Path → Option Bytes :=
  if from_path = to_path then files
  else Function.update (Function.update files to_path (files from_path)) from_path none

def writeFileAtomically (dirName : Path → Path) (system : FileSystem Path) (path : Path) (data : Bytes) :
    Outcome Path :=
  match system.creates (dirName path) with
  | none => ⟨system.files, some false, some .FAILED_CREATING⟩
  | some tmp_file_path =>
      let holding (content : Option Bytes) := Function.update system.files tmp_file_path content
      if system.closes = false then ⟨holding (some []), some false, some .FAILED_CREATING⟩
      else if system.opens = false then ⟨holding (some []), some false, some .FAILED_OPENING⟩
      else if 2 ^ 31 ≤ data.length then ⟨holding (some []), none, none⟩
      else
        let bytes_written : Int := system.writes.elim (-1) fun count => min count data.length
        if bytes_written < data.length then ⟨holding none, some false, some .FAILED_WRITING⟩
        else if system.flushes = false then ⟨holding none, some false, some .FAILED_FLUSHING⟩
        else if system.renames = false then ⟨holding none, some false, some .FAILED_RENAMING⟩
        else ⟨replaceFile (holding (some (data.take bytes_written.toNat))) tmp_file_path path, some true, none⟩

/-- All or nothing: the target has the data and true is returned, or all files are as before. -/
structure Atomic (before : Path → Option Bytes) (path : Path) (data : Bytes) (outcome : Outcome Path) : Prop where
  returned : outcome.returned = some true ↔ outcome.files path = some data
  untouched : outcome.returned ≠ some true → outcome.files path = before path
  clean : ∀ other, other ≠ path → outcome.files other = before other

/-- No call fails. -/
structure Succeeds (dirName : Path → Path) (system : FileSystem Path) (path : Path) (data : Bytes) : Prop where
  creates : (system.creates (dirName path)).isSome
  closes : system.closes
  opens : system.opens
  writes : ∃ count, system.writes = some count ∧ data.length ≤ count
  flushes : system.flushes
  renames : system.renames

variable {dirName : Path → Path} {system : FileSystem Path} {path tmp : Path} {data : Bytes}

omit [DecidableEq Path] in
theorem atomic_of_false {logged : Option TempFileFailure} :
    Atomic system.files path data ⟨system.files, some false, logged⟩ ↔ system.files path ≠ some data := by
  constructor
  · exact fun atomic same => Bool.false_ne_true (Option.some.inj (atomic.returned.2 same))
  · exact fun other => ⟨iff_of_false (fun same => Bool.false_ne_true (Option.some.inj same)) other, fun _ => rfl,
      fun _ _ => rfl⟩

/-- A temporary file that stays is a file that was not there. -/
theorem not_atomic_of_left (absent : system.files tmp = none) {returned : Option Bool} (failed : returned ≠ some true)
    {content : Bytes} {logged : Option TempFileFailure} :
    ¬Atomic system.files path data ⟨Function.update system.files tmp (some content), returned, logged⟩ := by
  intro atomic
  have left : Function.update system.files tmp (some content) tmp ≠ system.files tmp := by simp [absent]
  by_cases same : tmp = path
  · exact left (same ▸ atomic.untouched failed)
  · exact left (atomic.clean tmp same)

theorem atomic_of_renamed (absent : system.files tmp = none) {logged : Option TempFileFailure} :
    Atomic system.files path data
      ⟨replaceFile (Function.update system.files tmp (some data)) tmp path, some true, logged⟩ := by
  unfold replaceFile
  split
  next same =>
    subst same
    exact ⟨by simp, fun failed => absurd rfl failed, fun other apart => by simp [apart]⟩
  next different =>
    refine ⟨by simp [Ne.symm different], fun failed => absurd rfl failed, fun other apart => ?_⟩
    by_cases same : other = tmp
    · simp [same, absent]
    · simp [same, apart]

/-- The write is atomic where no temporary file is given up before the clean-up begins. -/
theorem writeFileAtomically_iff :
    Atomic system.files path data (writeFileAtomically dirName system path data) ↔
      ((system.creates (dirName path)).isSome → system.closes ∧ system.opens ∧ data.length < 2 ^ 31) ∧
        (system.files path = some data → Succeeds dirName system path data) := by
  have failed (ready : (system.creates (dirName path)).isSome → system.closes ∧ system.opens ∧ data.length < 2 ^ 31)
      (fails : ¬Succeeds dirName system path data) {logged : Option TempFileFailure} :
      Atomic system.files path data ⟨system.files, some false, logged⟩ ↔
        ((system.creates (dirName path)).isSome → system.closes ∧ system.opens ∧ data.length < 2 ^ 31) ∧
          (system.files path = some data → Succeeds dirName system path data) := by
    rw [atomic_of_false]
    exact ⟨fun other => ⟨ready, fun same => absurd same other⟩, fun both same => fails (both.2 same)⟩
  unfold writeFileAtomically
  cases created : system.creates (dirName path) with
  | none =>
    rw [created] at failed
    exact failed (fun made => Bool.noConfusion made) fun succeeds => by simpa [created] using succeeds.creates
  | some tmp =>
    rw [created] at failed
    have absent := system.fresh _ _ created
    have cleaned : Function.update system.files tmp none = system.files := absent ▸ Function.update_eq_self tmp _
    dsimp only
    rw [cleaned]
    by_cases ready : system.closes ∧ system.opens ∧ data.length < 2 ^ 31
    · have failed {logged} (fails) := @failed (fun _ => ready) fails logged
      rw [if_neg (by simp [ready]), if_neg (by simp [ready]), if_neg (by omega)]
      split_ifs with short unflushed unrenamed
      · refine failed fun succeeds => ?_
        obtain ⟨count, writes, whole⟩ := succeeds.writes
        simp [writes, whole] at short
      · exact failed fun succeeds => by simpa [unflushed] using succeeds.flushes
      · exact failed fun succeeds => by simpa [unrenamed] using succeeds.renames
      · obtain ⟨count, writes, whole⟩ : ∃ count, system.writes = some count ∧ data.length ≤ count := by
          cases writes : system.writes with
          | none => simp [writes] at short; omega
          | some count => exact ⟨count, rfl, by simpa [writes] using short⟩
        have all : data.take (system.writes.elim (-1) fun count => (min count data.length : Int)).toNat = data := by
          simp [writes, whole]
        rw [all]
        exact iff_of_true (atomic_of_renamed absent) ⟨fun _ => ready, fun _ => ⟨by simp [created], ready.1, ready.2.1,
          ⟨count, writes, whole⟩, by simpa using unflushed, by simpa using unrenamed⟩⟩
    · refine iff_of_false ?_ fun both => ready (both.1 rfl)
      split_ifs with one two three
      · exact not_atomic_of_left absent (by simp)
      · exact not_atomic_of_left absent (by simp)
      · exact not_atomic_of_left absent (by simp)
      all_goals exact absurd ⟨by simpa using one, by simpa using two, by omega⟩ ready

/-- Nothing removes a temporary file that could not be opened. -/
theorem not_atomic_of_unopened :
    ¬Atomic (fun _ : Bool => none) true [] (writeFileAtomically id
      ⟨fun _ => none, fun _ => some false, fun _ _ _ => rfl, true, false, some 0, true, true⟩ true []) := by
  intro atomic
  exact absurd (atomic.clean false (by decide)) (by decide)

end Atomically

/-! ### Scheduled writes -/

section Scheduled
variable {Serializer : Type}

/-- The members that the calls change; `timer_` is `IsRunning`, `posted` the write tasks. -/
structure Writer (Serializer : Type) where
  timer_ : Bool
  serializer_ : Option Serializer
  posted : List Bytes

namespace Writer

def hasPendingWrite (writer : Writer Serializer) : Bool := writer.timer_

def writeNow (writer : Writer Serializer) (data : Bytes) : Writer Serializer :=
  if data.length < 2 ^ 31 then
    let writer := if writer.hasPendingWrite then { writer with timer_ := false } else writer
    { writer with posted := writer.posted ++ [data] }
  else writer

def scheduleWrite (writer : Writer Serializer) (serializer : Serializer) : Writer Serializer :=
  let writer := { writer with serializer_ := some serializer }
  if writer.timer_ then writer else { writer with timer_ := true }

/-- `DoScheduledWrite` from where `SerializeData` returns: the data, or none where it failed. -/
def serialized (writer : Writer Serializer) (data : Option Bytes) : Writer Serializer :=
  let writer := data.elim writer writer.writeNow
  { writer with serializer_ := none }

end Writer

/-- A writer, the calls of `SerializeData` that have not returned, and whether a `ScheduleWrite` has been
followed by no `SerializeData` call and no explicit `WriteNow`. -/
structure State (Serializer : Type) where
  writer : Writer Serializer
  serializing : List Serializer
  unserved : Bool
  crashed : Bool

def State.initial : State Serializer := ⟨⟨false, none, []⟩, [], false, false⟩

/-- Calls can be made while `SerializeData` runs; `returns` ends the innermost of its calls. -/
inductive Call (Serializer : Type) where
  | scheduleWrite (serializer : Serializer)
  | writeNow (data : Bytes)
  | fire
  | returns (data : Option Bytes)

def State.step (state : State Serializer) : Call Serializer → Option (State Serializer)
  | .scheduleWrite serializer => some { state with writer := state.writer.scheduleWrite serializer, unserved := true }
  | .writeNow data => some { state with
      writer := state.writer.writeNow data
      unserved := state.unserved && decide (2 ^ 31 ≤ data.length) }
  | .fire =>
      -- A one-shot timer stops before it runs its task.
      if state.writer.timer_ then
        match state.writer.serializer_ with
        | some serializer => some { state with
            writer := { state.writer with timer_ := false }
            serializing := serializer :: state.serializing
            unserved := false }
        | none => some { state with crashed := true }
      else none
  | .returns data =>
      match state.serializing with
      | [] => none
      | _ :: rest => some { state with writer := state.writer.serialized data, serializing := rest }

/-- A pending write has its serializer, and a scheduled write is pending until it is served. -/
structure State.Keeps (state : State Serializer) : Prop where
  serializer : state.writer.hasPendingWrite → state.writer.serializer_.isSome
  served : state.unserved → state.writer.hasPendingWrite
  runs : state.crashed = false

/-- `SerializeData` returns with no write pending. -/
def State.Quiet (state : State Serializer) (call : Call Serializer) : Prop :=
  ∀ data, call = .returns data → state.writer.hasPendingWrite = false

/-- What holds before the first return that is not quiet. -/
structure State.Served (state : State Serializer) : Prop extends state.Keeps where
  unserved : state.unserved = state.writer.timer_

namespace Writer
variable (writer : Writer Serializer)

@[simp] theorem hasPendingWrite_scheduleWrite (serializer : Serializer) :
    (writer.scheduleWrite serializer).hasPendingWrite = true := by
  unfold scheduleWrite hasPendingWrite
  dsimp only
  split
  next pending => exact pending
  next => rfl

@[simp] theorem serializer_scheduleWrite (serializer : Serializer) :
    (writer.scheduleWrite serializer).serializer_ = some serializer := by
  unfold scheduleWrite
  dsimp only
  split <;> rfl

@[simp] theorem hasPendingWrite_writeNow (data : Bytes) :
    (writer.writeNow data).hasPendingWrite = (writer.hasPendingWrite && decide (2 ^ 31 ≤ data.length)) := by
  unfold writeNow
  split
  next small =>
    rw [decide_eq_false (Nat.not_le.2 small), Bool.and_false]
    dsimp only
    split
    next => rfl
    next idle => exact Bool.eq_false_iff.2 idle
  next large => rw [decide_eq_true (Nat.not_lt.1 large), Bool.and_true]

@[simp] theorem serializer_writeNow (data : Bytes) : (writer.writeNow data).serializer_ = writer.serializer_ := by
  unfold writeNow
  dsimp only
  split_ifs <;> rfl

theorem hasPendingWrite_serialized (data : Option Bytes) :
    (writer.serialized data).hasPendingWrite =
      (writer.hasPendingWrite && data.elim true fun bytes => decide (2 ^ 31 ≤ bytes.length)) := by
  cases data with
  | none => exact (Bool.and_true _).symm
  | some bytes => exact hasPendingWrite_writeNow writer bytes

end Writer

theorem Served.step {before after : State Serializer} {call : Call Serializer} (served : before.Served)
    (quiet : before.Quiet call) (stepped : before.step call = some after) : after.Served := by
  have pending := served.serializer
  have same : before.unserved = before.writer.hasPendingWrite := served.unserved
  cases call with
  | scheduleWrite serializer =>
    cases stepped
    exact ⟨⟨by simp, by simp, served.runs⟩, (Writer.hasPendingWrite_scheduleWrite _ _).symm⟩
  | writeNow data =>
    cases stepped
    have same' := congrArg (· && decide (2 ^ 31 ≤ data.length)) same
    rw [← Writer.hasPendingWrite_writeNow] at same'
    refine ⟨⟨fun still => ?_, fun owed => same' ▸ owed, served.runs⟩, same'⟩
    rw [Writer.serializer_writeNow]
    rw [Writer.hasPendingWrite_writeNow, Bool.and_eq_true] at still
    exact pending still.1
  | fire =>
    simp only [State.step] at stepped
    split at stepped
    next fires =>
      split at stepped
      next =>
        cases stepped
        exact ⟨⟨fun still => Bool.noConfusion still, fun owed => Bool.noConfusion owed, served.runs⟩, rfl⟩
      next missing =>
        have some := pending fires
        rw [missing] at some
        cases some
    next => cases stepped
  | returns data =>
    simp only [State.step] at stepped
    split at stepped
    next => cases stepped
    next =>
      cases stepped
      have idle : (before.writer.serialized data).hasPendingWrite = false := by
        rw [Writer.hasPendingWrite_serialized, quiet data rfl, Bool.false_and]
      have owes : before.unserved = false := same.trans (quiet data rfl)
      exact ⟨⟨fun still => absurd (idle.symm.trans still) Bool.false_ne_true,
        fun owed => absurd (owes.symm.trans owed) Bool.false_ne_true, served.runs⟩, owes.trans idle.symm⟩

theorem not_keeps_of_loud {before after : State Serializer} {call : Call Serializer} (served : before.Served)
    (loud : ¬before.Quiet call) (stepped : before.step call = some after) : ¬after.Keeps := by
  have ⟨data, returns, pending⟩ : ∃ data, call = .returns data ∧ before.writer.hasPendingWrite = true := by
    by_contra none
    exact loud fun data returns => Bool.eq_false_iff.2 fun pending => none ⟨data, returns, pending⟩
  subst returns
  simp only [State.step] at stepped
  split at stepped
  next => cases stepped
  next =>
    cases stepped
    -- The request is dropped with the timer, or its serializer is.
    exact fun keeps => Bool.false_ne_true (keeps.serializer (keeps.served (served.unserved.trans pending)))

/-- The serializer is kept, and no scheduled write is dropped, in exactly the runs in which `SerializeData`
never returns with a write pending. -/
theorem always_keeps_iff (calls : List (Call Serializer)) {last : State Serializer}
    (ran : runFrom State.step (fun _ _ => True) State.initial calls = some last) :
    Always State.step State.Keeps State.initial calls ↔ Meets State.step State.Quiet State.initial calls :=
  always_iff_meets (fun _ served => served.toKeeps) (fun _ _ _ => Served.step) (fun _ _ _ => not_keeps_of_loud)
    ⟨⟨fun pending => Bool.noConfusion pending, fun unserved => Bool.noConfusion unserved, rfl⟩, rfl⟩ ran

/-- The serializer asks for another write: its data are dropped where it succeeds. -/
theorem not_always_keeps : ¬∀ (calls : List (Call Unit)) (last : State Unit),
    runFrom State.step (fun _ _ => True) State.initial calls = some last →
      Always State.step State.Keeps State.initial calls := by
  intro always
  have run := always [.scheduleWrite (), .fire, .scheduleWrite (), .returns (some [])] _ rfl
  have last := (((run.2 _ rfl).2 _ rfl).2 _ rfl).2 _ rfl
  exact Bool.false_ne_true (last.served rfl)

theorem always_keeps_again :
    Always State.step State.Keeps (State.initial : State Unit) [.scheduleWrite (), .fire, .returns none] ↔
      Meets State.step State.Quiet (State.initial : State Unit) [.scheduleWrite (), .fire, .returns none] :=
  always_keeps_iff [.scheduleWrite (), .fire, .returns none] rfl

end Scheduled

end Libchrome.Base.Files.ImportantFileWriter
