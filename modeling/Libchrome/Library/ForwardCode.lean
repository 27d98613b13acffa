import Mathlib.Data.List.Basic
import Mathlib.Tactic.Common

/-! Machine code whose control transfers only go forward. Executing an
instruction either halts or steps over some of the instructions that follow it,
so a run only ever looks at shorter and shorter tails of the code. -/

namespace Libchrome.Library.ForwardCode

inductive Flow (σ ρ : Type) where
  | halt (result : ρ)
  | skip (count : Nat) (state : σ)

section Run
variable {ι σ ρ : Type} (exec : ι → σ → Flow σ ρ)

/-- Runs what remains after stepping over `count` instructions. Falling off the end has no result. -/
def runAfter : Nat → List ι → σ → Option ρ
  | _, [], _ => none
  | count + 1, _ :: rest, state => runAfter count rest state
  | 0, instruction :: rest, state =>
      match exec instruction state with
      | .halt result => some result
      | .skip count next => runAfter count rest next

def run (code : List ι) (state : σ) : Option ρ := runAfter exec 0 code state

theorem runAfter_eq_run_drop (count : Nat) (code : List ι) (state : σ) :
    runAfter exec count code state = run exec (code.drop count) state := by
  induction count generalizing code with
  | zero => rfl
  | succ count ih =>
    cases code with
    | nil => rfl
    | cons instruction rest => exact ih rest

theorem run_cons (instruction : ι) (rest : List ι) (state : σ) :
    run exec (instruction :: rest) state =
      match exec instruction state with
      | .halt result => some result
      | .skip count next => run exec (rest.drop count) next := by
  change runAfter exec 0 (instruction :: rest) state = _
  rw [runAfter]
  split
  · rfl
  · exact runAfter_eq_run_drop exec _ _ _

end Run

section Buffer
variable {ι : Type}

/-- The code that starts at `node` in a buffer filled backwards: position 0 holds the last instruction. -/
def codeAt (buffer : List ι) (node : Nat) : List ι := (buffer.take (node + 1)).reverse

theorem codeAt_append (buffer more : List ι) (node : Nat) (inside : node < buffer.length) :
    codeAt (buffer ++ more) node = codeAt buffer node := by
  unfold codeAt
  rw [List.take_append_of_le_length (by omega)]

theorem codeAt_grows {buffer longer : List ι} (grown : buffer <+: longer) (node : Nat)
    (inside : node < buffer.length) : codeAt longer node = codeAt buffer node := by
  obtain ⟨more, rfl⟩ := grown
  exact codeAt_append buffer more node inside

theorem codeAt_cons (buffer : List ι) (node : Nat) (inside : node < buffer.length) :
    codeAt buffer node = buffer[node] :: (buffer.take node).reverse := by
  unfold codeAt
  rw [List.take_succ_eq_append_getElem inside, List.reverse_append]
  rfl

theorem codeAt_eq_drop_reverse (buffer : List ι) (node : Nat) (inside : node < buffer.length) :
    codeAt buffer node = buffer.reverse.drop (buffer.length - 1 - node) := by
  unfold codeAt
  rw [List.reverse_take]
  congr 1
  omega

theorem drop_reverse_take (buffer : List ι) (node count : Nat) (inside : node ≤ buffer.length) :
    (buffer.take node).reverse.drop count = (buffer.take (node - count)).reverse := by
  by_cases below : count ≤ node
  · rw [List.reverse_take, List.reverse_take, List.drop_drop]
    congr 1
    omega
  · rw [Nat.sub_eq_zero_of_le (by omega), List.drop_eq_nil_of_le]
    · simp only [List.take_zero, List.reverse_nil]
    · simp only [List.length_reverse, List.length_take]
      omega

theorem codeAt_length (buffer : List ι) (node : Nat) (inside : node < buffer.length) :
    (codeAt buffer node).length = node + 1 := by
  simp only [codeAt, List.length_reverse, List.length_take]
  omega

variable {σ ρ : Type} (exec : ι → σ → Flow σ ρ)

/-- Execution from a node of the backward buffer: skipping `count` instructions goes down by `count + 1`. -/
theorem run_codeAt (buffer : List ι) (node : Nat) (inside : node < buffer.length) (state : σ) :
    run exec (codeAt buffer node) state =
      match exec buffer[node] state with
      | .halt result => some result
      | .skip count next =>
          if count < node then run exec (codeAt buffer (node - 1 - count)) next else none := by
  rw [codeAt_cons buffer node inside, run_cons]
  split
  next result found => rfl
  next count next found =>
    rw [drop_reverse_take buffer node count (Nat.le_of_lt inside)]
    split
    next lower =>
      have position : node - count = node - 1 - count + 1 := by omega
      rw [position]
      rfl
    next upper =>
      have position : node - count = 0 := by omega
      rw [position]
      rfl

end Buffer

end Libchrome.Library.ForwardCode
