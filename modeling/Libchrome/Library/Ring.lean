import Mathlib.Data.List.Basic
import Mathlib.Data.Nat.ModEq

/-! # Rings: what stands in the cells of a list from a place on, around its end -/

namespace Libchrome.Library.Ring

variable {α : Type*} [Inhabited α] (cells : List α)

/-- The cell at a place, the places counted around the end. -/
def at_ (place : Nat) : α := cells.getD (place % cells.length) default

def window (start count : Nat) : List α := (List.range count).map fun k => at_ cells (start + k)

@[simp] theorem length_window (start count : Nat) : (window cells start count).length = count := by
  rw [window, List.length_map, List.length_range]

theorem at_mod (place : Nat) : at_ cells (place % cells.length) = at_ cells place := by
  rw [at_, at_, Nat.mod_mod]

theorem window_mod (start count : Nat) : window cells (start % cells.length) count = window cells start count := by
  refine List.map_congr_left fun k _ => ?_
  rw [at_, at_, Nat.mod_add_mod]

theorem window_succ (start count : Nat) :
    window cells start (count + 1) = window cells start count ++ [at_ cells (start + count)] := by
  rw [window, window, List.range_succ, List.map_append, List.map_singleton]

/-- The first of the cells. -/
theorem window_cons (start count : Nat) :
    window cells start (count + 1) = at_ cells start :: window cells (start + 1) count := by
  rw [window, window, List.range_succ_eq_map, List.map_cons, List.map_map]
  refine congrArg (at_ cells start :: ·) (List.map_congr_left fun k _ => ?_)
  rw [Function.comp_apply, Nat.succ_eq_add_one, Nat.add_assoc, Nat.add_comm 1 k]

theorem drop_window (start count skip : Nat) :
    (window cells start count).drop skip = window cells (start + skip) (count - skip) := by
  induction skip generalizing start count with
  | zero => rfl
  | succ skip ih =>
    cases count with
    | zero => rw [Nat.zero_sub, window, window, List.range_zero, List.map_nil, List.map_nil, List.drop_nil]
    | succ count =>
      rw [window_cons, List.drop_succ_cons, ih, Nat.add_sub_add_right, Nat.add_assoc, Nat.add_comm 1 skip]

theorem window_set {start count : Nat} (room : count < cells.length) (x : α) :
    window (cells.set ((start + count) % cells.length) x) start count = window cells start count := by
  refine List.map_congr_left fun k inside => ?_
  have below : k < count := List.mem_range.mp inside
  have apart : (start + count) % cells.length ≠ (start + k) % cells.length := by
    intro same
    have equal : count % cells.length = k % cells.length := Nat.ModEq.add_left_cancel' start same
    rw [Nat.mod_eq_of_lt room, Nat.mod_eq_of_lt (Nat.lt_trans below room)] at equal
    exact Nat.ne_of_gt below equal
  rw [at_, at_, List.length_set, List.getD_eq_getElem?_getD, List.getElem?_set_ne apart, ← List.getD_eq_getElem?_getD]

/-- A value that is stored behind a window makes the window longer. -/
theorem window_push {start count : Nat} (room : count < cells.length) (x : α) :
    window (cells.set ((start + count) % cells.length) x) start (count + 1) = window cells start count ++ [x] := by
  have here : (start + count) % cells.length < cells.length := Nat.mod_lt _ (Nat.zero_lt_of_lt room)
  rw [window_succ, window_set cells room, at_, List.length_set, List.getD_eq_getElem?_getD,
    List.getElem?_set_self here, Option.getD_some]

theorem getElem?_eq_at {place : Nat} (inside : place < cells.length) : cells[place]? = some (at_ cells place) := by
  rw [at_, Nat.mod_eq_of_lt inside, List.getD_eq_getElem?_getD, List.getElem?_eq_getElem inside, Option.getD_some]

end Libchrome.Library.Ring
