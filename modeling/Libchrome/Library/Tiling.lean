import Mathlib.Data.List.Basic
import Mathlib.Tactic.Common

/-! Consecutive pieces that cut a half-open interval of naturals. Each piece starts
where the one before it stops and carries a value that holds at all its points. -/

namespace Libchrome.Library.Tiling
variable {α : Type}

/-- `pieces` pair a start with a value; the last piece ends at `stop`. Pieces may be empty. -/
inductive Tiles (start : α → Nat) (holds : α → Nat → Prop) : Nat → Nat → List α → Prop where
  | nil (point : Nat) : Tiles start holds point point []
  | cons {piece : α} {next stop : Nat} {rest : List α} (forward : start piece ≤ next)
      (covers : ∀ point, start piece ≤ point → point < next → holds piece point)
      (tail : Tiles start holds next stop rest) : Tiles start holds (start piece) stop (piece :: rest)

variable {start : α → Nat} {first second : α → Nat → Prop} {low high : Nat}

theorem Tiles.mono {pieces : List α} (tiles : Tiles start first low high pieces)
    (weaker : ∀ piece point, first piece point → second piece point) : Tiles start second low high pieces := by
  induction tiles with
  | nil point => exact .nil point
  | cons forward covers _ ih =>
    exact .cons forward (fun point above below => weaker _ _ (covers point above below)) ih

theorem Tiles.append {middle : Nat} {front back : List α} (left : Tiles start first low middle front)
    (right : Tiles start first middle high back) : Tiles start first low high (front ++ back) := by
  induction left with
  | nil => exact right
  | cons forward covers _ ih => exact .cons forward covers (ih right)

/-- Cutting the list before `piece` cuts the interval where `piece` starts. -/
theorem Tiles.split {front back : List α} {piece : α}
    (tiles : Tiles start first low high (front ++ piece :: back)) :
    Tiles start first low (start piece) front ∧ Tiles start first (start piece) high (piece :: back) := by
  induction front generalizing low with
  | nil =>
    cases tiles with
    | cons forward covers tail => exact ⟨.nil _, .cons forward covers tail⟩
  | cons head others ih =>
    cases tiles with
    | cons forward covers tail =>
      have ⟨left, right⟩ := ih tail
      exact ⟨.cons forward covers left, right⟩

theorem Tiles.single {piece : α} (tiles : Tiles start first low high [piece]) :
    ∀ point, low ≤ point → point < high → first piece point := by
  cases tiles with
  | cons _ covers tail =>
    cases tail with
    | nil => exact covers

/-- Adds one more piece at the end. -/
theorem Tiles.snoc {pieces : List α} (piece : α) (tiles : Tiles start first low (start piece) pieces)
    (forward : start piece ≤ high)
    (covers : ∀ point, start piece ≤ point → point < high → first piece point) :
    Tiles start first low high (pieces ++ [piece]) :=
  tiles.append (.cons forward covers (.nil high))

theorem Tiles.low_le {pieces : List α} (tiles : Tiles start first low high pieces) :
    ∀ piece ∈ pieces, low ≤ start piece := by
  induction tiles with
  | nil point => exact fun _ member => absurd member List.not_mem_nil
  | cons forward _ _ ih =>
    exact List.forall_mem_cons.2 ⟨Nat.le_refl _, fun piece member => Nat.le_trans forward (ih piece member)⟩

/-- The last piece that starts at or below a point holds there. -/
theorem Tiles.exists_last {pieces : List α} (tiles : Tiles start first low high pieces) {point : Nat}
    (above : low ≤ point) (below : point < high) : ∃ index : Fin pieces.length,
      (start (pieces.get index) ≤ point ∧ ∀ later, index < later → point < start (pieces.get later)) ∧
        first (pieces.get index) point := by
  induction tiles with
  | nil point => exact absurd below (Nat.not_lt.2 above)
  | @cons piece next stop rest forward covers tail ih =>
    by_cases inside : point < next
    · refine ⟨⟨0, Nat.succ_pos _⟩, ⟨above, fun later behind => ?_⟩, covers point above inside⟩
      cases later using Fin.cases with
      | zero => exact absurd behind (Nat.lt_irrefl 0)
      | succ later => exact Nat.lt_of_lt_of_le inside (tail.low_le _ (List.get_mem rest later))
    · obtain ⟨index, ⟨starts, ends⟩, holds⟩ := ih (Nat.le_of_not_lt inside) below
      refine ⟨index.succ, ⟨starts, fun later behind => ?_⟩, holds⟩
      cases later using Fin.cases with
      | zero => exact absurd behind (Nat.not_lt_zero _)
      | succ later => exact ends later (Fin.succ_lt_succ_iff.1 behind)

end Libchrome.Library.Tiling
